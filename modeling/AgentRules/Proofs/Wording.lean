import Mathlib
import AgentRules.Check
import AgentRules.Proofs.Header.Extent
import AgentRules.Proofs.Text.Lower
import AgentRules.Proofs.Text.Occurrences

/-!
# The lines of vague phrases

A phrase is searched for in the body in lower case, and the place where it is found is then counted
off in the document. The two places differ by the capitals that become two characters. Main
statement: `wording_line_iff`, by which the line is right unless one of the characters that are
counted too many is a line feed.
-/

namespace AgentRules

open Text (lower FirstIn)

/-! ## Header and body -/

namespace Rule

/-- What is taken off a document before its body. -/
def prelude (r : Rule) : Text := r.text.take r.bodyStart

theorem bodyStart_le (r : Rule) : r.bodyStart ≤ r.text.length := by
  unfold bodyStart
  cases r.kind with
  | legacy => exact Nat.zero_le _
  | modern => exact Nat.sub_le _ _

theorem body_eq (r : Rule) : r.body = r.text.drop r.bodyStart := by
  unfold body bodyStart
  cases r.kind with
  | legacy => rfl
  | modern => exact Header.body_eq_drop r.text

theorem prelude_append_body (r : Rule) : r.prelude ++ r.body = r.text := by
  rw [body_eq, prelude, List.take_append_drop]

theorem length_prelude (r : Rule) : r.prelude.length = r.bodyStart := by
  rw [prelude, List.length_take, Nat.min_eq_left r.bodyStart_le]

/-- The line of the document on which the body goes on after some of its text. -/
def lineAfter (r : Rule) (before : Text) : ℕ := 1 + r.prelude.count '\n' + before.count '\n'

end Rule

namespace Check

theorem lineAt_bodyStart (r : Rule) (n : ℕ) : lineAt r.text (r.bodyStart + n) = r.lineAfter (r.body.take n) := by
  have htake : r.text.take (r.bodyStart + n) = r.prelude ++ r.body.take n := by
    conv_lhs => rw [← r.prelude_append_body, ← r.length_prelude, List.take_length_add_append]
  rw [lineAt, htake, List.count_append, Rule.lineAfter]
  omega

/-! ## Phrases -/

theorem nodup_vaguePhrases : vaguePhrases.Nodup := by decide +kernel

theorem head?_of_mem : ∀ phrase ∈ vaguePhrases, ∃ c, phrase.toList.head? = some c ∧ c ≠ '\u0307' := by
  intro phrase h
  have hall : ∀ phrase ∈ vaguePhrases, phrase.toList ≠ [] ∧ phrase.toList.head? ≠ some '\u0307' := by decide +kernel
  obtain ⟨c, t, ht⟩ := List.exists_cons_of_ne_nil (hall phrase h).1
  have hc := (hall phrase h).2
  rw [ht] at hc
  exact ⟨c, by rw [ht]; rfl, fun e => hc (by rw [e]; rfl)⟩

def wordingIssue (phrase : String) (line : ℕ) : Issue where
  severity := .warning
  message := "Vague rule detected: \"" ++ phrase ++ "\""
  hint := some "Replace with a concrete, checkable instruction"
  line := some line

/-- The characters that are counted too many for a phrase after some text: as many as the text has
capitals that become two characters. -/
def overrun (before behind : Text) : Text := behind.take (before.count 'İ')

theorem lineAt_lower {r : Rule} {before behind : Text} (h : r.body = before ++ behind) :
    lineAt r.text (r.bodyStart + (lower before).length) = r.lineAfter before + (overrun before behind).count '\n' := by
  have htake : r.body.take (lower before).length = before ++ overrun before behind := by
    rw [Text.length_lower, h, List.take_length_add_append, overrun]
  rw [lineAt_bodyStart, htake, Rule.lineAfter, Rule.lineAfter, List.count_append]
  omega

/-- What a body has before a phrase and from the phrase on, where its lower case first has the phrase. -/
structure Cut (r : Rule) (phrase : String) (before behind : Text) : Prop where
  body : r.body = before ++ behind
  first : ∃ rest, FirstIn phrase.toList (lower r.body) (lower before) rest

theorem exists_cut {r : Rule} {phrase : String} (hp : phrase ∈ vaguePhrases) {u v : Text}
    (h : FirstIn phrase.toList (lower r.body) u v) : ∃ before behind, Cut r phrase before behind ∧ lower before = u := by
  obtain ⟨c, hc, hne⟩ := head?_of_mem phrase hp
  have hcut : lower r.body = u ++ (phrase.toList ++ v) := by rw [h.here, List.append_assoc]
  have hhead : (phrase.toList ++ v).head? ≠ some '\u0307' := by
    rw [List.head?_append, hc]
    exact fun e => hne (Option.some.inj e)
  obtain ⟨before, behind, hbody, rfl, -⟩ := Text.exists_cut_of_lower hcut hhead
  exact ⟨before, behind, ⟨hbody, v, h⟩, rfl⟩

/-! ## What is reported -/

def Reported (r : Rule) (phrase : String) (i : Issue) : Prop :=
  ∃ before behind, Cut r phrase before behind ∧
    i = wordingIssue phrase (r.lineAfter before + (overrun before behind).count '\n')

theorem reported_of_firstIn {r : Rule} {phrase : String} (hp : phrase ∈ vaguePhrases) {u v : Text}
    (h : FirstIn phrase.toList (lower r.body) u v) :
    Reported r phrase (wordingIssue phrase (lineAt r.text (r.bodyStart + u.length))) := by
  obtain ⟨before, behind, hcut, rfl⟩ := exists_cut hp h
  exact ⟨before, behind, hcut, by rw [lineAt_lower hcut.body]⟩

theorem forall₂_reported (r : Rule) : ∀ phrases : List String, (∀ phrase ∈ phrases, phrase ∈ vaguePhrases) →
    List.Forall₂ (Reported r) (phrases.filter fun phrase => phrase.toList <:+: lower r.body)
      (phrases.filterMap fun phrase => (Text.indexOf? phrase.toList (lower r.body)).map fun i =>
        wordingIssue phrase (lineAt r.text (r.bodyStart + i))) := by
  intro phrases
  induction phrases with
  | nil => intro _; exact .nil
  | cons phrase phrases ih =>
    intro hall
    have hrest := ih fun q hq => hall q (List.mem_cons_of_mem phrase hq)
    rw [List.filterMap_cons, List.filter_cons]
    cases hi : Text.indexOf? phrase.toList (lower r.body) with
    | none =>
      have hnot : ¬ phrase.toList <:+: lower r.body := by
        rw [← Text.occursIn_iff, Text.occursIn, hi]
        exact Bool.false_ne_true
      rw [if_neg (by simpa using hnot)]
      exact hrest
    | some i =>
      obtain ⟨u, v, hf, rfl⟩ := Text.indexOf?_eq_some_iff.mp hi
      have hstands : phrase.toList <:+: lower r.body := ⟨u, v, hf.here.symm⟩
      rw [if_pos (by simpa using hstands)]
      exact .cons (reported_of_firstIn (hall phrase List.mem_cons_self) hf) hrest

theorem Cut.lineAfter_eq {r : Rule} {phrase : String} {before behind : Text} (h : Cut r phrase before behind) :
    r.lineAfter before = lineAt r.text (r.bodyStart + before.length) := by
  rw [lineAt_bodyStart, h.body, List.take_left]

theorem wordingIssue_line_iff (phrase : String) (n : ℕ) (t : Text) :
    (wordingIssue phrase (n + t.count '\n')).line = some (n : ℤ) ↔ '\n' ∉ t := by
  rw [← List.count_eq_zero]
  simp [wordingIssue]

/-- **Lines of vague phrases.** The phrases that a body has in lower case are reported once each, in the
order of the table. The line of a phrase is reported iff no line feed is counted too many. -/
theorem wording_line_iff (r : Rule) : vaguePhrases.Nodup ∧
    List.Forall₂ (fun phrase i => ∃ before behind line, Cut r phrase before behind ∧
        line = 1 + r.prelude.count '\n' + (lower before).count '\n' ∧
        line = lineAt r.text (r.bodyStart + before.length) ∧
        i = wordingIssue phrase (line + (overrun before behind).count '\n') ∧
        (i.line = some (line : ℤ) ↔ '\n' ∉ overrun before behind))
      (vaguePhrases.filter fun phrase => phrase.toList <:+: lower r.body) (wordingIssues r) := by
  refine ⟨nodup_vaguePhrases, (forall₂_reported r vaguePhrases fun _ h => h).imp ?_⟩
  rintro phrase i ⟨before, behind, hcut, rfl⟩
  have hline : r.lineAfter before = 1 + r.prelude.count '\n' + (lower before).count '\n' := by
    rw [Text.count_newline_lower, Rule.lineAfter]
  exact ⟨before, behind, r.lineAfter before, hcut, hline, hcut.lineAfter_eq, rfl, wordingIssue_line_iff phrase _ _⟩

/-- A phrase on the first line, with as many capitals before it as it has characters. -/
def dotted : Rule := ⟨".cursorrules", .legacy, "İİİİİİİİİİİbe careful\n".toList⟩

theorem dotted_capitals_shift_line :
    Text.indexOf? "be careful".toList (lower dotted.body) = some 22 ∧
    1 + dotted.prelude.count '\n' + ((lower dotted.body).take 22).count '\n' = 1 ∧
    wordingIssues dotted = [wordingIssue "be careful" 2] := by
  decide +kernel

end Check
end AgentRules
