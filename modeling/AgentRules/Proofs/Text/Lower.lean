import Mathlib
import AgentRules.Text.Case

/-!
# Lower case and places

Lower case keeps every line feed and makes no new ones. It keeps every character one character, but
for the capital I with a dot, which becomes two. So a place in a text in lower case lies further on
than the place in the text that it comes from, by as many of these capitals as stand before it.
-/

namespace AgentRules.Text

theorem lower_cons (c : Char) (t : Text) : lower (c :: t) = lowerChar c ++ lower t := List.flatMap_cons

theorem lowerChar_dotted : lowerChar 'İ' = ['i', '\u0307'] := by decide

/-! ## Single characters -/

theorem toLower_eq_newline_iff (c : Char) : c.toLower = '\n' ↔ c = '\n' := by
  unfold Char.toLower
  split
  · next h =>
    have hlow : 65 ≤ c.val.toNat := UInt32.le_iff_toNat_le.mp h.1
    have hhigh : c.val.toNat ≤ 90 := UInt32.le_iff_toNat_le.mp h.2
    refine iff_of_false (fun he => ?_) fun he => ?_
    · have hval : (c.val + ('a'.val - 'A'.val)).toNat = 10 := congrArg Char.toNat he
      have hshift : ('a'.val - 'A'.val).toNat = 32 := by decide
      rw [UInt32.toNat_add, hshift] at hval
      omega
    · rw [he] at hlow
      exact absurd hlow (by decide)
  · rfl

/-- Small letters of the table stand above the control characters. -/
theorem lt_of_mem_capitals : ∀ r ∈ capitals, (10 : ℤ) < r.first + r.shift := by decide +kernel

theorem ofNat_ne_newline {n : ℕ} (h : n ≠ 10) : Char.ofNat n ≠ '\n' := by
  intro he
  have hn := congrArg Char.toNat he
  unfold Char.ofNat at hn
  split at hn
  · exact h hn
  · cases hn

theorem lowerChar_of_ne {c : Char} (h : c ≠ 'İ') : ∃ d, lowerChar c = [d] ∧ (d = '\n' ↔ c = '\n') := by
  unfold lowerChar
  by_cases hascii : c.toNat < 0x80
  · exact ⟨c.toLower, by rw [if_pos hascii], toLower_eq_newline_iff c⟩
  · have hc : c ≠ '\n' := fun e => hascii (by rw [e]; decide)
    rw [if_neg hascii, if_neg h]
    cases hr : capitals.find? (·.holds c.toNat) with
    | none => exact ⟨c, rfl, Iff.rfl⟩
    | some r =>
      have hlow := lt_of_mem_capitals r (List.mem_of_find?_eq_some hr)
      have hfirst : r.first ≤ c.toNat := by
        have hholds := List.find?_some hr
        simp only [Capitals.holds, Bool.and_eq_true, decide_eq_true_eq] at hholds
        exact hholds.1.1
      exact ⟨_, rfl, iff_of_false (ofNat_ne_newline (by omega)) hc⟩

/-! ## Texts -/

theorem length_lower (t : Text) : (lower t).length = t.length + t.count 'İ' := by
  induction t with
  | nil => rfl
  | cons c t ih =>
    rw [lower_cons, List.length_append, ih, List.length_cons, List.count_cons]
    by_cases hc : c = 'İ'
    · rw [hc, lowerChar_dotted]; simp; omega
    · obtain ⟨d, hd, -⟩ := lowerChar_of_ne hc
      rw [hd]; simp [hc]; omega

theorem count_newline_lower (t : Text) : (lower t).count '\n' = t.count '\n' := by
  induction t with
  | nil => rfl
  | cons c t ih =>
    rw [lower_cons, List.count_append, ih, List.count_cons, Nat.add_comm]
    congr 1
    by_cases hc : c = 'İ'
    · rw [hc]; decide
    · obtain ⟨d, hd, hn⟩ := lowerChar_of_ne hc
      by_cases h : c = '\n'
      · rw [hd, hn.mpr h, h]; rfl
      · simp [hd, mt hn.mp h, h]

/-- A cut of a text in lower case is a cut of the text, unless it stands before the dot of a capital. -/
theorem exists_cut_of_lower {t : Text} : ∀ {u w : Text}, lower t = u ++ w → w.head? ≠ some '\u0307' →
    ∃ a b, t = a ++ b ∧ lower a = u ∧ lower b = w := by
  induction t with
  | nil =>
    intro u w h _
    obtain ⟨rfl, rfl⟩ := List.append_eq_nil_iff.mp h.symm
    exact ⟨[], [], rfl, rfl, rfl⟩
  | cons c t ih =>
    intro u w h hw
    cases u with
    | nil => exact ⟨[], c :: t, rfl, rfl, h⟩
    | cons x u =>
      rw [lower_cons] at h
      by_cases hc : c = 'İ'
      · rw [hc, lowerChar_dotted] at h
        cases u with
        | nil =>
          simp only [List.cons_append, List.nil_append, List.cons.injEq] at h
          exact absurd (by rw [← h.2]; rfl) hw
        | cons y u =>
          simp only [List.cons_append, List.nil_append, List.cons.injEq] at h
          obtain ⟨rfl, rfl, h⟩ := h
          obtain ⟨a, b, rfl, rfl, rfl⟩ := ih h hw
          exact ⟨c :: a, b, rfl, by rw [lower_cons, hc, lowerChar_dotted]; rfl, rfl⟩
      · obtain ⟨d, hd, -⟩ := lowerChar_of_ne hc
        rw [hd] at h
        simp only [List.cons_append, List.nil_append, List.cons.injEq] at h
        obtain ⟨rfl, h⟩ := h
        obtain ⟨a, b, rfl, rfl, rfl⟩ := ih h hw
        exact ⟨c :: a, b, rfl, by rw [lower_cons, hd]; rfl, rfl⟩

end AgentRules.Text
