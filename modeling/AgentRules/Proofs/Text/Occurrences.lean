import Mathlib
import AgentRules.Text

/-!
# Occurrences

A search finds the first place where a pattern stands, if it stands anywhere. A pattern that stands
within the bounds of another one is part of it.
-/

namespace AgentRules.Text

/-- What stands before and after a pattern where it first occurs in a text. -/
structure FirstIn (p t u v : Text) : Prop where
  here : t = u ++ p ++ v
  first : ∀ u' v', t = u' ++ p ++ v' → u.length ≤ u'.length

section
variable {p t u v : Text} {c : Char}

theorem firstIn_nil_of_prefix (h : p <+: t) : ∃ v, FirstIn p t [] v := by
  obtain ⟨v, rfl⟩ := h
  exact ⟨v, rfl, fun _ _ _ => Nat.zero_le _⟩

theorem FirstIn.eq_nil (h : FirstIn p t u v) (hp : p <+: t) : u = [] := by
  obtain ⟨w, hw⟩ := hp
  have := h.first [] w hw.symm
  simpa using this

theorem firstIn_cons (h : ¬ p <+: c :: t) : FirstIn p (c :: t) u v ↔ ∃ w, u = c :: w ∧ FirstIn p t w v := by
  -- No occurrence starts at the first character.
  have hstart : ∀ {u v : Text}, c :: t = u ++ p ++ v → ∃ w, u = c :: w ∧ t = w ++ p ++ v := by
    intro u v hu
    cases u with
    | nil => exact absurd ⟨v, hu.symm⟩ h
    | cons d w =>
      obtain ⟨rfl, ht⟩ := List.cons.inj hu
      exact ⟨w, rfl, ht⟩
  constructor
  · intro hf
    obtain ⟨w, rfl, ht⟩ := hstart hf.here
    refine ⟨w, rfl, ht, fun u' v' hu' => ?_⟩
    have := hf.first (c :: u') v' (by rw [hu']; rfl)
    simpa using this
  · rintro ⟨w, rfl, ht, hfirst⟩
    refine ⟨by rw [ht]; rfl, fun u' v' hu' => ?_⟩
    obtain ⟨w', rfl, hw'⟩ := hstart hu'
    have := hfirst w' v' hw'
    simpa using this

end

theorem indexOf?_eq_some_iff {p t : Text} : ∀ {i : ℕ}, indexOf? p t = some i ↔ ∃ u v, FirstIn p t u v ∧ u.length = i := by
  induction t with
  | nil =>
    intro i
    cases p with
    | nil =>
      constructor
      · intro h
        exact ⟨[], [], ⟨rfl, fun _ _ _ => Nat.zero_le _⟩, Option.some.inj h⟩
      · rintro ⟨u, v, hf, rfl⟩
        rw [hf.eq_nil List.nil_prefix]; rfl
    | cons x p =>
      constructor
      · intro h; cases h
      · rintro ⟨u, v, hf, -⟩
        have := congrArg List.length hf.here
        simp at this
  | cons c t ih =>
    intro i
    rw [indexOf?]
    by_cases hp : p <+: c :: t
    · rw [if_pos (List.isPrefixOf_iff_prefix.mpr hp)]
      constructor
      · intro h
        obtain ⟨v, hf⟩ := firstIn_nil_of_prefix hp
        exact ⟨[], v, hf, Option.some.inj h⟩
      · rintro ⟨u, v, hf, rfl⟩
        rw [hf.eq_nil hp]; rfl
    · rw [if_neg (by rwa [List.isPrefixOf_iff_prefix]), Option.map_eq_some_iff]
      constructor
      · rintro ⟨k, hk, rfl⟩
        obtain ⟨u, v, hf, rfl⟩ := ih.mp hk
        exact ⟨c :: u, v, (firstIn_cons hp).mpr ⟨u, rfl, hf⟩, rfl⟩
      · rintro ⟨u, v, hf, rfl⟩
        obtain ⟨w, rfl, hw⟩ := (firstIn_cons hp).mp hf
        exact ⟨w.length, ih.mpr ⟨w, v, hw, rfl⟩, rfl⟩

theorem exists_firstIn {p t : Text} (h : p <:+: t) : ∃ u v, FirstIn p t u v := by
  induction t with
  | nil => exact ⟨[], firstIn_nil_of_prefix (List.infix_nil.mp h ▸ List.nil_prefix)⟩
  | cons c t ih =>
    by_cases hp : p <+: c :: t
    · exact ⟨[], firstIn_nil_of_prefix hp⟩
    · obtain ⟨u, v, hf⟩ := ih ((List.infix_cons_iff.mp h).resolve_left hp)
      exact ⟨c :: u, v, (firstIn_cons hp).mpr ⟨u, rfl, hf⟩⟩

theorem occursIn_iff {p t : Text} : occursIn p t = true ↔ p <:+: t := by
  rw [occursIn, Option.isSome_iff_exists]
  constructor
  · rintro ⟨i, hi⟩
    obtain ⟨u, v, hf, -⟩ := indexOf?_eq_some_iff.mp hi
    exact ⟨u, v, hf.here.symm⟩
  · intro h
    obtain ⟨u, v, hf⟩ := exists_firstIn h
    exact ⟨u.length, indexOf?_eq_some_iff.mpr ⟨u, v, hf, rfl⟩⟩

theorem infix_iff_exists_drop {p t : Text} : p <:+: t ↔ ∃ i ≤ t.length, p <+: t.drop i := by
  constructor
  · rintro ⟨u, v, rfl⟩
    refine ⟨u.length, by simp only [List.length_append]; omega, v, ?_⟩
    rw [List.append_assoc u, List.drop_left]
  · rintro ⟨i, -, h⟩
    exact h.isInfix.trans (List.drop_suffix i t).isInfix

/-- A pattern that starts no earlier than another one and ends no later is part of it. -/
theorem infix_of_within {p q t : Text} {i j : ℕ} (hp : p <+: t.drop i) (hq : q <+: t.drop j) (hj : j ≤ i)
    (hend : i + p.length ≤ j + q.length) : p <:+: q := by
  obtain ⟨v, hv⟩ := hq
  have hdrop : t.drop i = q.drop (i - j) ++ v := by
    have hlen : i - j ≤ q.length := by omega
    rw [← List.drop_append_of_le_length hlen, hv, List.drop_drop]
    congr 1
    omega
  rw [hdrop] at hp
  have hpre : p <+: q.drop (i - j) :=
    List.prefix_of_prefix_length_le hp (List.prefix_append _ v) (by rw [List.length_drop]; omega)
  exact hpre.isInfix.trans (List.drop_suffix _ q).isInfix

end AgentRules.Text
