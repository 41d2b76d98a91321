import Mathlib
import AgentRules.Proofs.Comparison
import AgentRules.Proofs.Header.Extent
import AgentRules.Proofs.Header.Indentation
import AgentRules.Proofs.Scope

/-!
# Line ends

A document may end its lines with a line feed alone or with a carriage return before it. Its header
says the same either way, its body is the same but for the returns, and so its scope and its long
lines are the same. Main statement: `line_ends_unseen`.
-/

namespace AgentRules

namespace Text

/-- Puts a carriage return before every line feed. -/
def withReturns : Text → Text
  | [] => []
  | c :: r => if c = '\n' then '\r' :: '\n' :: withReturns r else c :: withReturns r

theorem withReturns_newline (r : Text) : withReturns ('\n' :: r) = '\r' :: '\n' :: withReturns r := rfl

theorem withReturns_cons {c : Char} (h : c ≠ '\n') (r : Text) : withReturns (c :: r) = c :: withReturns r := by
  rw [withReturns, if_neg h]

theorem isPrefixOf?_withReturns : ∀ {p : Text}, '\n' ∉ p → '\r' ∉ p → ∀ t : Text,
    p.isPrefixOf? (withReturns t) = (p.isPrefixOf? t).map withReturns
  | [], _, _, t => rfl
  | x :: p, _, _, [] => rfl
  | x :: p, hn, hr, c :: t => by
    rw [List.mem_cons, not_or] at hn hr
    by_cases hc : c = '\n'
    · rw [hc, withReturns_newline, List.isPrefixOf?, List.isPrefixOf?, beq_false_of_ne (Ne.symm hr.1),
        beq_false_of_ne (Ne.symm hn.1)]
      rfl
    · rw [withReturns_cons hc, List.isPrefixOf?, List.isPrefixOf?, isPrefixOf?_withReturns hn.2 hr.2 t]
      split <;> rfl

section
variable {t : Text} (h : '\r' ∉ t)
include h

theorem afterLineEnd?_withReturns : afterLineEnd? (withReturns t) = (afterLineEnd? t).map withReturns := by
  cases t with
  | nil => rfl
  | cons c t =>
    rw [List.mem_cons, not_or] at h
    by_cases hc : c = '\n'
    · rw [hc]; rfl
    · rw [withReturns_cons hc, afterLineEnd?.eq_3, afterLineEnd?.eq_3] <;> simp [hc, Ne.symm h.1]

theorem lines_withReturns : lines (withReturns t) = lines t := by
  induction t with
  | nil => rfl
  | cons c t ih =>
    rw [List.mem_cons, not_or] at h
    have hplain : ∀ u r : Text, c = '\r' → u = '\n' :: r → False := fun _ _ hc _ => h.1 hc.symm
    by_cases hc : c = '\n'
    · have hb : isBoundary '\n' = true := by decide
      rw [lines.eq_3 _ _ (hplain t), hc, withReturns_newline, lines, if_pos hb, ih h.2]
    · rw [withReturns_cons hc, lines.eq_3 _ _ (hplain _), lines.eq_3 _ _ (hplain t), ih h.2]

end

end Text

open Text (withReturns isPrefixOf?_withReturns)

/-! ## Headers -/

namespace Header

/-- The rows of a text with returns end with one, but for the last. -/
theorem map_withoutReturn_rows {t : Text} (h : '\r' ∉ t) :
    (Text.rows (withReturns t)).map withoutReturn = Text.rows t := by
  induction t with
  | nil => rfl
  | cons c t ih =>
    rw [List.mem_cons, not_or] at h
    by_cases hc : c = '\n'
    · have hrows : Text.rows ('\r' :: '\n' :: withReturns t) = ['\r'] :: Text.rows (withReturns t) := by
        rw [Text.rows_cons (by decide), Text.rows_cons_newline]; rfl
      rw [hc, Text.withReturns_newline, hrows, Text.rows_cons_newline, List.map_cons, ih h.2]; rfl
    · rw [Text.withReturns_cons hc, Text.rows_cons hc, Text.rows_cons hc, ← ih h.2]
      cases Text.rows (withReturns t) with
      | nil => simp [Text.push, withoutReturn, Ne.symm h.1]
      | cons l ls => simp [Text.push, withoutReturn_cons (c := c) fun hr => h.1 hr.1.symm]

theorem isPrefixOf?_dashes (t : Text) : dashes.isPrefixOf? (withReturns t) = (dashes.isPrefixOf? t).map withReturns :=
  isPrefixOf?_withReturns (by decide) (by decide) t

theorem afterClose?_newline (t : Text) : afterClose? ('\n' :: t) = dashes.isPrefixOf? t := rfl

theorem afterClose?_of_ne {c : Char} (hn : c ≠ '\n') (hr : c ≠ '\r') (t : Text) : afterClose? (c :: t) = none := by
  rw [afterClose?, Text.afterLineEnd?.eq_3]
  · rfl
  · exact fun _ h => hn (List.cons.inj h).1
  · exact fun _ h => hr (List.cons.inj h).1

section
variable {t : Text} (h : '\r' ∉ t)
include h

/-- The return before the line end that closes a block belongs to the line end. -/
theorem cutBlock?_withReturns : cutBlock? (withReturns t) = (cutBlock? t).map (Prod.map withReturns withReturns) := by
  induction t with
  | nil => rfl
  | cons c t ih =>
    rw [List.mem_cons, not_or] at h
    by_cases hc : c = '\n'
    · have hreturn : afterClose? ('\r' :: '\n' :: withReturns t) = (dashes.isPrefixOf? t).map withReturns :=
        isPrefixOf?_dashes t
      have hfeed : afterClose? ('\n' :: withReturns t) = (dashes.isPrefixOf? t).map withReturns :=
        isPrefixOf?_dashes t
      rw [hc, Text.withReturns_newline, cutBlock?, cutBlock?, cutBlock?, hreturn, hfeed, afterClose?_newline, ih h.2]
      cases dashes.isPrefixOf? t with
      | some rest => rfl
      | none => cases cutBlock? t <;> rfl
    · rw [Text.withReturns_cons hc, cutBlock?, cutBlock?, afterClose?_of_ne hc (Ne.symm h.1),
        afterClose?_of_ne hc (Ne.symm h.1), ih h.2]
      cases cutBlock? t with
      | none => rfl
      | some q => simp [Text.withReturns_cons hc]

theorem cut?_withReturns : cut? (withReturns t) = (cut? t).map (Prod.map withReturns withReturns) := by
  have hcut : ∀ u : Text, cut? u = (dashes.isPrefixOf? u).bind fun r => (Text.afterLineEnd? r).bind cutBlock? := by
    intro u
    unfold cut?
    split
    · rfl
    · next hu =>
      cases hp : dashes.isPrefixOf? u with
      | none => rfl
      | some r => exact absurd (List.isPrefixOf?_eq_some_iff_append_eq.mp hp).symm (hu r)
  rw [hcut, hcut, isPrefixOf?_dashes]
  cases hp : dashes.isPrefixOf? t with
  | none => rfl
  | some r =>
    obtain rfl := List.isPrefixOf?_eq_some_iff_append_eq.mp hp
    rw [List.mem_append, not_or] at h
    rw [Option.map_some, Option.bind_some, Option.bind_some, Text.afterLineEnd?_withReturns h.2]
    cases he : Text.afterLineEnd? r with
    | none => rfl
    | some u =>
      obtain ⟨e, -, rfl⟩ := afterLineEnd?_eq_some_iff.mp he
      rw [List.mem_append, not_or] at h
      exact cutBlock?_withReturns h.2.2

theorem return_not_mem_cut? {block rest : Text} (hc : cut? t = some (block, rest)) : '\r' ∉ block ∧ '\r' ∉ rest := by
  obtain ⟨e, f, -, -, rfl⟩ := reads_of_cut? hc
  simp only [List.mem_append, not_or] at h
  tauto

theorem ofText_withReturns : ofText (withReturns t) = ofText t := by
  rw [ofText, ofText, cut?_withReturns h]
  cases hc : cut? t with
  | none => rfl
  | some q =>
    have hblock : '\r' ∉ q.1 := (return_not_mem_cut? h hc).1
    show ofBlock (withReturns q.1) = ofBlock q.1
    rw [ofBlock, ofBlock, blockLines, blockLines, Text.lines_withReturns hblock]

theorem body_withReturns : body (withReturns t) = withReturns (body t) := by
  rw [body, body, cut?_withReturns h]
  cases hc : cut? t with
  | none => rfl
  | some q =>
    have hrest : '\r' ∉ q.2 := (return_not_mem_cut? h hc).2
    simp only [Option.map_some, Prod.map, Text.afterLineEnd?_withReturns hrest]
    cases Text.afterLineEnd? q.2 <;> rfl

end

end Header

/-! ## Rules -/

/-- A rule, or the same rule with carriage returns. -/
def Rule.SameButReturns (r q : Rule) : Prop := q = r ∨ '\r' ∉ r.text ∧ q = { r with text := withReturns r.text }

section
variable {t : Text} (h : '\r' ∉ t)
include h

theorem longLines_withReturns (n : ℤ) : longLines n (withReturns t) = longLines n t := by
  have htrim : (Text.rows (withReturns t)).map Text.trim = (Text.rows t).map Text.trim := by
    rw [← Header.map_withoutReturn_rows h, List.map_map]
    exact List.map_congr_left fun l _ => (Header.trim_withoutReturn l).symm
  rw [longLines, longLines, htrim]

theorem body_rule_withReturns (name : String) (k : Kind) :
    (Rule.mk name k (withReturns t)).body = withReturns (Rule.mk name k t).body := by
  cases k with
  | legacy => rfl
  | modern => exact Header.body_withReturns h

theorem longLines_body_withReturns (name : String) (k : Kind) (n : ℤ) :
    longLines n (Rule.mk name k (withReturns t)).body = longLines n (Rule.mk name k t).body := by
  rw [body_rule_withReturns h]
  refine longLines_withReturns (fun hm => h ?_) n
  cases k with
  | legacy => exact hm
  | modern => exact (Header.body_suffix t).subset hm

end

theorem redundancies_of_sameButReturns (how : Likeness) {rs qs : List Rule} (h : List.Forall₂ Rule.SameButReturns rs qs) :
    redundancies how rs = redundancies how qs := by
  have hseen : ∀ {rs qs : List Rule}, List.Forall₂ Rule.SameButReturns rs qs →
      (rs.map fun r => (r.identifier, longLines how.minLength r.body)) =
        qs.map fun q => (q.identifier, longLines how.minLength q.body) := by
    intro rs qs h
    induction h with
    | nil => rfl
    | @cons r q rs qs hrq _ ih =>
      rw [List.map_cons, List.map_cons, ih]
      rcases hrq with rfl | ⟨hr, rfl⟩
      · rfl
      · rw [← longLines_body_withReturns hr r.identifier r.kind]
  rw [redundancies, redundancies, hseen h]

/-- **Line ends are not seen.** A text and the same text with carriage returns have the same header,
the same scope and the same long lines, and the same body but for the returns. So any rules of a list
may have returns, and the same redundancies are found. -/
theorem line_ends_unseen :
    (∀ t : Text, '\r' ∉ t →
      Header.ofText (withReturns t) = Header.ofText t ∧
      Header.body (withReturns t) = withReturns (Header.body t) ∧
      ∀ name : String,
        (Rule.mk name .modern (withReturns t)).scope = (Rule.mk name .modern t).scope ∧
        (Rule.mk name .modern (withReturns t)).tier = (Rule.mk name .modern t).tier ∧
        ∀ how : Likeness, longLines how.minLength (Rule.mk name .modern (withReturns t)).body =
          longLines how.minLength (Rule.mk name .modern t).body) ∧
    ∀ (how : Likeness) (rs qs : List Rule), List.Forall₂ Rule.SameButReturns rs qs →
      redundancies how rs = redundancies how qs := by
  refine ⟨fun t h => ⟨Header.ofText_withReturns h, Header.body_withReturns h, fun name => ?_⟩,
    fun how rs qs h => redundancies_of_sameButReturns how h⟩
  have hscope : (Rule.mk name .modern (withReturns t)).scope = (Rule.mk name .modern t).scope :=
    congrArg Header.scope (Header.ofText_withReturns h)
  exact ⟨hscope, Rule.tier_eq rfl hscope, fun how => longLines_body_withReturns h name .modern how.minLength⟩

/-- Two rules with one line between them, of which the first is written with returns. -/
theorem returned_rule_shares_line :
    '\r' ∉ (withSpaces "b").text ∧
    (Rule.mk "b" .modern (withReturns (withSpaces "b").text)).scope = ⟨false, ["*.ts".toList]⟩ ∧
    redundancies {} [Rule.mk "b" .modern (withReturns (withSpaces "b").text), withSpaces "c"] = [⟨"b", "c", 100, 1⟩] := by
  have hr : '\r' ∉ (withSpaces "b").text := by decide
  have hsame : List.Forall₂ Rule.SameButReturns [withSpaces "b", withSpaces "c"]
      [Rule.mk "b" .modern (withReturns (withSpaces "b").text), withSpaces "c"] :=
    .cons (Or.inr ⟨hr, rfl⟩) (.cons (Or.inl rfl) .nil)
  have hscope := ((line_ends_unseen.1 _ hr).2.2 "b").1
  have hredundancies := line_ends_unseen.2 {} _ _ hsame
  exact ⟨hr, hscope.trans (by decide), hredundancies.symm.trans (by decide +kernel)⟩

end AgentRules
