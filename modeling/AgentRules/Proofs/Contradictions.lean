import Mathlib
import AgentRules.Proofs.Comparison
import AgentRules.Proofs.Text.Occurrences

/-!
# Bodies that agree

Two bodies agree on the second directive of an opposition if they mention the first only within
phrases of the second. Phrases of opposed directives do not contain one another, with one exception:
the phrase "never use any" contains "use any". Main statement: `agreement_reported_iff`, by which
bodies that agree are reported in this one case only.
-/

namespace AgentRules

open Text (occursIn_iff)

/-! ## Reasons -/

theorem opposedReasons_map (s t : Text) (os : List Opposition) :
    opposedReasons os (os.map (·.stance s)) (os.map (·.stance t)) =
      (os.filter fun o => (o.stance s).opposes (o.stance t)).map Opposition.reason := by
  induction os with
  | nil => rfl
  | cons o os ih =>
    rw [List.map_cons, List.map_cons, opposedReasons, ih, List.filter_cons]
    by_cases h : (o.stance s).opposes (o.stance t) = true
    · rw [if_pos h, if_pos h, List.map_cons]
    · rw [if_neg h, if_neg h]

theorem nodup_reasons : (Opposition.all.map Opposition.reason).Nodup := by decide +kernel

theorem mem_contradictions_iff {o : Opposition} (ho : o ∈ Opposition.all) (a b : Text) : o.reason ∈ contradictions a b ↔
    (o.stance (plainLetters a)).opposes (o.stance (plainLetters b)) = true := by
  have hreasons : contradictions a b = (Opposition.all.filter fun o =>
      (o.stance (plainLetters a)).opposes (o.stance (plainLetters b))).map Opposition.reason :=
    opposedReasons_map _ _ _
  rw [hreasons, List.mem_map]
  constructor
  · rintro ⟨q, hq, he⟩
    rw [List.mem_filter] at hq
    rw [← List.inj_on_of_nodup_map nodup_reasons hq.1 ho he]
    exact hq.2
  · intro h
    exact ⟨o, List.mem_filter.mpr ⟨ho, h⟩, rfl⟩

/-! ## What bodies say -/

/-- A phrase stands in a body, with case and variants of letters ignored. -/
def Says (body : Text) (phrase : String) : Prop := phrase.toList <:+: plainLetters body

instance (body : Text) (phrase : String) : Decidable (Says body phrase) :=
  inferInstanceAs (Decidable (phrase.toList <:+: plainLetters body))

def Directive.Given (d : Directive) (body : Text) : Prop := ∃ p ∈ d.phrases, Says body p

instance (d : Directive) (body : Text) : Decidable (d.Given body) := List.decidableBEx (Says body) d.phrases

theorem Directive.givenIn_iff {d : Directive} {body : Text} : d.givenIn (plainLetters body) = true ↔ d.Given body := by
  simp only [givenIn, List.any_eq_true, occursIn_iff, Given, Says]

/-- **Agreement on the second directive.** Every phrase of the first that stands in a body starts and
ends within a phrase of the second. -/
def Opposition.OnlySecond (o : Opposition) (body : Text) : Prop :=
  ∀ p ∈ o.first.phrases, ∀ i ≤ (plainLetters body).length, p.toList <+: (plainLetters body).drop i →
    ∃ q ∈ o.second.phrases, ∃ j ≤ i, q.toList <+: (plainLetters body).drop j ∧
      i + p.toList.length ≤ j + q.toList.length

instance (o : Opposition) (body : Text) : Decidable (o.OnlySecond body) := by
  unfold Opposition.OnlySecond
  infer_instance

/-- One body says "never use any", in which "use any" is found, and the other agrees with it. -/
def Opposition.Misread (o : Opposition) (a b : Text) : Prop :=
  o.first.label = "use any" ∧
    (Says a "never use any" ∧ o.second.Given b ∨ o.second.Given a ∧ Says b "never use any")

theorem label_of_infix : ∀ o ∈ Opposition.all, ∀ p ∈ o.first.phrases, ∀ q ∈ o.second.phrases,
    p.toList <:+: q.toList → o.first.label = "use any" ∧ q = "never use any" := by
  decide +kernel

theorem phrases_of_label : ∀ o ∈ Opposition.all, o.first.label = "use any" → "use any" ∈ o.first.phrases := by
  decide +kernel

theorem Opposition.OnlySecond.given_iff {o : Opposition} (ho : o ∈ Opposition.all) {body : Text} (h : o.OnlySecond body) :
    o.first.Given body ↔ o.first.label = "use any" ∧ Says body "never use any" := by
  constructor
  · rintro ⟨p, hp, hsays⟩
    obtain ⟨i, hi, hpre⟩ := Text.infix_iff_exists_drop.mp hsays
    obtain ⟨q, hq, j, hj, hqpre, hend⟩ := h p hp i hi hpre
    obtain ⟨hlabel, rfl⟩ := label_of_infix o ho p hp q hq (Text.infix_of_within hpre hqpre hj hend)
    exact ⟨hlabel, hqpre.isInfix.trans (List.drop_suffix j _).isInfix⟩
  · rintro ⟨hlabel, hsays⟩
    have hpart : "use any".toList <:+: "never use any".toList := by decide
    exact ⟨"use any", phrases_of_label o ho hlabel, hpart.trans hsays⟩

/-! ## What is reported -/

theorem contradictions_of_onlySecond {o : Opposition} (ho : o ∈ Opposition.all) {a b : Text} (ha : o.OnlySecond a)
    (hb : o.OnlySecond b) : o.reason ∈ contradictions a b ↔ o.Misread a b := by
  rw [mem_contradictions_iff ho, Opposition.Stance.opposes]
  simp only [Opposition.stance, Bool.or_eq_true, Bool.and_eq_true, Directive.givenIn_iff, ha.given_iff ho,
    hb.given_iff ho, Opposition.Misread]
  tauto

theorem mem_of_mem_pairs {α : Type} {as : List α} {p : α × α} (h : p ∈ pairs as) : p.1 ∈ as ∧ p.2 ∈ as := by
  induction as with
  | nil => cases h
  | cons a as ih =>
    rw [pairs, List.mem_append, List.mem_map] at h
    rcases h with ⟨b, hb, rfl⟩ | h
    · exact ⟨List.mem_cons_self, List.mem_cons_of_mem a hb⟩
    · exact ⟨List.mem_cons_of_mem a (ih h).1, List.mem_cons_of_mem a (ih h).2⟩

theorem conflict?_reasons_iff (r q : Rule) (reason : String) : (∃ c, r.conflict? q = some c ∧ reason ∈ c.reasons) ↔
    r.scope.meets q.scope = true ∧ reason ∈ contradictions r.body q.body := by
  have hreasons : opposedReasons Opposition.all (Profile.ofRule r).stances (Profile.ofRule q).stances =
      contradictions r.body q.body := rfl
  have hscopes : (Profile.ofRule r).scope.meets (Profile.ofRule q).scope = r.scope.meets q.scope := rfl
  rw [Rule.conflict?, Profile.conflict?, hreasons, hscopes]
  by_cases hm : r.scope.meets q.scope = true
  · rw [if_pos hm]
    cases contradictions r.body q.body with
    | nil => simp
    | cons x xs => simp [hm]
  · simp [hm]

/-- **Agreeing bodies.** Bodies that agree on the second directive are reported for it only if one of
them says "never use any", and then always; so are two rules with such bodies that may apply together. -/
theorem agreement_reported_iff {o : Opposition} (ho : o ∈ Opposition.all) :
    (∀ a b : Text, o.OnlySecond a → o.OnlySecond b → (o.reason ∈ contradictions a b ↔ o.Misread a b)) ∧
    ∀ rs : List Rule, (∀ r ∈ rs, o.OnlySecond r.body) →
      ((∃ c ∈ conflicts rs, o.reason ∈ c.reasons) ↔
        ∃ p ∈ pairs rs, p.1.scope.meets p.2.scope = true ∧ o.Misread p.1.body p.2.body) := by
  refine ⟨fun a b ha hb => contradictions_of_onlySecond ho ha hb, fun rs hrs => ?_⟩
  have hpair : ∀ p ∈ pairs rs, (∃ c, p.1.conflict? p.2 = some c ∧ o.reason ∈ c.reasons) ↔
      p.1.scope.meets p.2.scope = true ∧ o.Misread p.1.body p.2.body := by
    intro p hp
    obtain ⟨h₁, h₂⟩ := mem_of_mem_pairs hp
    rw [conflict?_reasons_iff, contradictions_of_onlySecond ho (hrs _ h₁) (hrs _ h₂)]
  rw [conflicts_eq]
  simp only [List.mem_filterMap]
  constructor
  · rintro ⟨c, ⟨p, hp, hc⟩, hreason⟩
    exact ⟨p, hp, (hpair p hp).mp ⟨c, hc, hreason⟩⟩
  · rintro ⟨p, hp, h⟩
    obtain ⟨c, hc, hreason⟩ := (hpair p hp).mpr h
    exact ⟨c, ⟨p, hp, hc⟩, hreason⟩

def anyUse : Opposition := ⟨⟨"use any", ["use any"]⟩, ⟨"never use any", ["never use any", "avoid any", "no any"]⟩⟩

theorem anyUse_mem : anyUse ∈ Opposition.all := by
  simp [Opposition.all, anyUse]

/-- A rule that always applies. -/
def saying (name words : String) : Rule := ⟨name, .modern, ("---\nalwaysApply: true\n---\n" ++ words).toList⟩

/-- Two rules that say the same in other words, and one of them with a third that says "never use any". -/
theorem only_one_wording_is_reported :
    (∀ r ∈ [saying "a" "Avoid any casts", saying "b" "There is no any here"], anyUse.OnlySecond r.body) ∧
    (¬ ∃ c ∈ conflicts [saying "a" "Avoid any casts", saying "b" "There is no any here"],
      anyUse.reason ∈ c.reasons) ∧
    anyUse.OnlySecond "Never use any".toList ∧
    anyUse.reason ∈ contradictions "Avoid any casts".toList "Never use any".toList := by
  have hrules : ∀ r ∈ [saying "a" "Avoid any casts", saying "b" "There is no any here"], anyUse.OnlySecond r.body := by
    decide +kernel
  have hfirst : anyUse.OnlySecond "Avoid any casts".toList := by decide +kernel
  have hthird : anyUse.OnlySecond "Never use any".toList := by decide +kernel
  obtain ⟨hbodies, hconflicts⟩ := agreement_reported_iff anyUse_mem
  refine ⟨hrules, fun h => ?_, hthird, (hbodies _ _ hfirst hthird).mpr ⟨rfl, Or.inr (by decide +kernel)⟩⟩
  obtain ⟨p, hp, -, hmisread⟩ := (hconflicts _ hrules).mp h
  have hnot : ∀ p ∈ pairs [saying "a" "Avoid any casts", saying "b" "There is no any here"],
      ¬ Says p.1.body "never use any" ∧ ¬ Says p.2.body "never use any" := by
    decide +kernel
  rcases hmisread.2 with ⟨h, -⟩ | ⟨-, h⟩
  · exact (hnot p hp).1 h
  · exact (hnot p hp).2 h

/-- Two rules that say the same, word for word, and are reported. -/
theorem equal_bodies_are_reported :
    anyUse ∈ Opposition.all ∧ anyUse.OnlySecond "never use any".toList ∧
    contradictions "never use any".toList "never use any".toList = [anyUse.reason] ∧
    conflicts [saying "a" "never use any", saying "b" "never use any"] =
      [⟨"a", "b", ["Conflicting style: \"use any\" vs \"never use any\""]⟩] :=
  ⟨anyUse_mem, by decide +kernel, by decide +kernel, by decide +kernel⟩

end AgentRules
