import Mathlib
import AgentRules.Text.Blank

/-!
# Trimming

What trimming takes away is blank, and what it leaves neither starts nor ends with a blank. Around
a character that is not blank, the two ends are trimmed one by one.
-/

namespace AgentRules.Text

@[simp] theorem trim_nil : trim [] = [] := rfl

@[simp] theorem trimLeft_nil : trimLeft [] = [] := rfl

@[simp] theorem trimRight_nil : trimRight [] = [] := rfl

theorem trimLeft_cons_blank {c : Char} (h : isBlank c = true) (t : Text) : trimLeft (c :: t) = trimLeft t := by
  simp [trimLeft, h]

theorem trimLeft_cons {c : Char} (h : isBlank c = false) (t : Text) : trimLeft (c :: t) = c :: t := by
  simp [trimLeft, h]

theorem trim_cons_blank {c : Char} (h : isBlank c = true) (t : Text) : trim (c :: t) = trim t := by
  rw [trim, trimLeft_cons_blank h]; rfl

theorem trimLeft_append_cons {x : Char} (h : isBlank x = false) (a b : Text) :
    trimLeft (a ++ x :: b) = trimLeft a ++ x :: b := by
  induction a with
  | nil => exact trimLeft_cons h b
  | cons c a ih =>
    cases hc : isBlank c with
    | true => rw [List.cons_append, trimLeft_cons_blank hc, trimLeft_cons_blank hc, ih]
    | false => rw [List.cons_append, trimLeft_cons hc, trimLeft_cons hc]; rfl

theorem trimRight_append_cons {x : Char} (h : isBlank x = false) (a b : Text) :
    trimRight (a ++ x :: b) = a ++ x :: trimRight b := by
  have := trimLeft_append_cons h b.reverse a.reverse
  simp only [trimLeft] at this
  simp only [trimRight, List.reverse_append, List.reverse_cons, List.append_assoc, List.singleton_append, this,
    List.reverse_reverse]

theorem trim_append_cons {x : Char} (h : isBlank x = false) (a b : Text) :
    trim (a ++ x :: b) = trimLeft a ++ x :: trimRight b := by
  rw [trim, trimLeft_append_cons h, trimRight_append_cons h]

theorem trimRight_append_blank (a : Text) {b : Text} (hb : allBlank b = true) : trimRight (a ++ b) = trimRight a := by
  rw [trimRight, trimRight, List.reverse_append, List.dropWhile_append_of_pos]
  intro c hc
  exact List.all_eq_true.mp hb c (List.mem_reverse.mp hc)

theorem trimLeft_of_allBlank {b : Text} (hb : allBlank b = true) : trimLeft b = [] :=
  List.dropWhile_eq_nil_iff.mpr (List.all_eq_true.mp hb)

theorem trim_of_allBlank {b : Text} (hb : allBlank b = true) : trim b = [] := by
  rw [trim, trimLeft_of_allBlank hb]; rfl

/-- A text is blank, or has a first character that is not. -/
theorem blank_or_exists_ink (t : Text) :
    allBlank t = true ∨ ∃ i c w, t = i ++ c :: w ∧ allBlank i = true ∧ isBlank c = false := by
  induction t with
  | nil => exact Or.inl rfl
  | cons c t ih =>
    by_cases hc : isBlank c = true
    · rcases ih with h | ⟨i, d, w, rfl, hi, hd⟩
      · left
        rw [allBlank] at h ⊢
        simp [hc, h]
      · refine Or.inr ⟨c :: i, d, w, rfl, ?_, hd⟩
        rw [allBlank] at hi ⊢
        simp [hc, hi]
    · exact Or.inr ⟨[], c, t, rfl, rfl, by simpa using hc⟩

theorem head?_trim_of_ink {i w : Text} {c : Char} (hi : allBlank i = true) (hc : isBlank c = false) :
    (trim (i ++ c :: w)).head? = some c := by
  rw [trim_append_cons hc, trimLeft_of_allBlank hi]; rfl

theorem head?_trimLeft_eq_head?_trim (t : Text) : (trimLeft t).head? = (trim t).head? := by
  rcases blank_or_exists_ink t with hb | ⟨i, c, w, rfl, hi, hc⟩
  · rw [trimLeft_of_allBlank hb, trim_of_allBlank hb]
  · rw [head?_trim_of_ink hi hc, trimLeft_append_cons hc, trimLeft_of_allBlank hi]; rfl

theorem trim_append_blank (a : Text) {b : Text} (hb : allBlank b = true) : trim (a ++ b) = trim a := by
  induction a with
  | nil => exact trim_of_allBlank hb
  | cons c a ih =>
    by_cases hc : isBlank c = true
    · rw [List.cons_append, trim_cons_blank hc, trim_cons_blank hc, ih]
    · have hc : isBlank c = false := by simpa using hc
      rw [trim, trim, List.cons_append, trimLeft_cons hc, trimLeft_cons hc, ← List.cons_append,
        trimRight_append_blank _ hb]

theorem trim_blank_append {b : Text} (hb : allBlank b = true) (a : Text) : trim (b ++ a) = trim a := by
  induction b with
  | nil => rfl
  | cons c b ih =>
    rw [allBlank, List.all_cons, Bool.and_eq_true] at hb
    rw [List.cons_append, trim_cons_blank hb.1, ih hb.2]

/-! ## What is left -/

theorem trimLeft_eq_self_iff {t : Text} : trimLeft t = t ↔ ∀ c ∈ t.head?, isBlank c = false := by
  cases t with
  | nil => simp
  | cons c t =>
    cases h : isBlank c with
    | true =>
      have : (trimLeft t).length ≤ t.length := List.length_dropWhile_le _ _
      simp only [trimLeft_cons_blank h, List.head?_cons, Option.mem_some_iff, forall_eq', h, Bool.true_eq_false,
        iff_false]
      intro e; rw [e] at this; simp at this
    | false => simp [trimLeft_cons h, h]

theorem trimRight_eq_self_iff {t : Text} : trimRight t = t ↔ ∀ c ∈ t.getLast?, isBlank c = false := by
  have h := trimLeft_eq_self_iff (t := t.reverse)
  rw [List.head?_reverse] at h
  rw [← h, trimRight, trimLeft, List.reverse_eq_iff]

theorem head?_trimLeft {t : Text} : ∀ c ∈ (trimLeft t).head?, isBlank c = false := by
  intro c hc
  have := List.head?_dropWhile_not isBlank t
  rw [trimLeft] at hc
  rw [hc] at this
  simpa using this

theorem getLast?_trimRight {t : Text} : ∀ c ∈ (trimRight t).getLast?, isBlank c = false := by
  intro c hc
  rw [trimRight, List.getLast?_reverse] at hc
  exact head?_trimLeft c hc

theorem trimRight_isPrefix (t : Text) : trimRight t <+: t := by
  have := List.dropWhile_suffix isBlank (l := t.reverse)
  rw [trimRight, ← List.reverse_suffix, List.reverse_reverse]; exact this

theorem trimLeft_suffix (t : Text) : trimLeft t <:+ t := List.dropWhile_suffix _

theorem trim_isInfix (t : Text) : trim t <:+: t :=
  (trimRight_isPrefix _).isInfix.trans (trimLeft_suffix t).isInfix

theorem mem_of_mem_trim {c : Char} {t : Text} (h : c ∈ trim t) : c ∈ t := (trim_isInfix t).subset h

theorem mem_trim_iff {c : Char} (hc : isBlank c = false) {t : Text} : c ∈ trim t ↔ c ∈ t := by
  refine ⟨mem_of_mem_trim, fun h => ?_⟩
  obtain ⟨a, b, rfl⟩ := List.append_of_mem h
  rw [trim_append_cons hc]
  simp

theorem head?_trim {t : Text} : ∀ c ∈ (trim t).head?, isBlank c = false := by
  intro c hc
  obtain ⟨u, hu⟩ := trimRight_isPrefix (trimLeft t)
  cases ht : trim t with
  | nil => rw [ht] at hc; cases hc
  | cons d r =>
    rw [ht] at hc
    rw [show trimRight (trimLeft t) = trim t from rfl, ht] at hu
    apply head?_trimLeft (t := t) c
    rw [← hu]; exact hc

theorem trim_eq_self_iff {t : Text} :
    trim t = t ↔ (∀ c ∈ t.head?, isBlank c = false) ∧ ∀ c ∈ t.getLast?, isBlank c = false := by
  constructor
  · intro h
    refine ⟨fun c hc => head?_trim (t := t) c (by rw [h]; exact hc), fun c hc => ?_⟩
    exact getLast?_trimRight (t := trimLeft t) c (by rw [show trimRight (trimLeft t) = trim t from rfl, h]; exact hc)
  · rintro ⟨hh, hl⟩
    rw [trim, trimLeft_eq_self_iff.mpr hh, trimRight_eq_self_iff.mpr hl]

@[simp] theorem trim_trim (t : Text) : trim (trim t) = trim t :=
  trim_eq_self_iff.mpr ⟨head?_trim, getLast?_trimRight⟩

theorem trim_between {a z : Char} (ha : isBlank a = false) (hz : isBlank z = false) (t : Text) :
    trim (a :: t ++ [z]) = a :: t ++ [z] :=
  trim_eq_self_iff.mpr ⟨by simpa using ha, by rw [List.getLast?_concat]; simpa using hz⟩

theorem exists_blank_around (t : Text) : ∃ l r, t = l ++ trim t ++ r ∧ allBlank l = true ∧ allBlank r = true := by
  refine ⟨t.takeWhile isBlank, ((trimLeft t).reverse.takeWhile isBlank).reverse, ?_, List.all_takeWhile, ?_⟩
  · have hr : trim t ++ ((trimLeft t).reverse.takeWhile isBlank).reverse = trimLeft t := by
      rw [trim, trimRight, ← List.reverse_append, List.takeWhile_append_dropWhile, List.reverse_reverse]
    rw [List.append_assoc, hr, trimLeft, List.takeWhile_append_dropWhile]
  · rw [allBlank, List.all_reverse]
    exact List.all_takeWhile

theorem allBlank_trim (t : Text) : allBlank (trim t) = allBlank t := by
  obtain ⟨l, r, ht, hl, hr⟩ := exists_blank_around t
  conv_rhs => rw [ht]
  rw [allBlank] at hl hr
  rw [allBlank, allBlank, List.all_append, List.all_append, hl, hr, Bool.true_and, Bool.and_true]

theorem allBlank_of_isInfix {a b : Text} (h : a <:+: b) (hb : allBlank b = true) : allBlank a = true := by
  rw [allBlank, List.all_eq_true] at hb ⊢
  exact fun c hc => hb c (h.subset hc)

theorem not_mem_of_allBlank {b : Text} {c : Char} (hb : allBlank b = true) (hc : isBlank c = false) : c ∉ b := by
  intro hm
  rw [List.all_eq_true.mp hb c hm] at hc
  cases hc

end AgentRules.Text
