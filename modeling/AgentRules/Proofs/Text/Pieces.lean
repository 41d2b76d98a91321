import Mathlib
import AgentRules.Text.Lines

/-!
# Pieces of texts

Cutting a text at a separator and joining the pieces are inverse to each other. A pattern without
the separator that occurs in a text occurs in one of the pieces.
-/

namespace AgentRules.Text

/-! ## Occurrences around a character -/

section
variable {p a b : Text} {x : Char}

theorem prefix_append_cons (hx : x ∉ p) : p <+: a ++ x :: b ↔ p <+: a := by
  induction p generalizing a with
  | nil => simp
  | cons y p ih =>
    rw [List.mem_cons, not_or] at hx
    cases a with
    | nil => simp [List.cons_prefix_cons, Ne.symm hx.1]
    | cons z a => simp only [List.cons_append, List.cons_prefix_cons, ih hx.2]

/-- A pattern does not reach across a character that it does not have. -/
theorem infix_append_cons (hx : x ∉ p) (hp : p ≠ []) : p <:+: a ++ x :: b ↔ p <:+: a ∨ p <:+: b := by
  induction a with
  | nil =>
    have h : ¬ p <+: x :: b := by
      obtain ⟨y, p, rfl⟩ := List.exists_cons_of_ne_nil hp
      rw [List.cons_prefix_cons]
      exact fun h => hx (by simp [h.1])
    simp [List.infix_cons_iff, h, hp]
  | cons z a ih =>
    rw [List.cons_append, List.infix_cons_iff, ih, List.infix_cons_iff, ← List.cons_append,
      prefix_append_cons hx, or_assoc]

theorem infix_cons_of_not_mem (hx : x ∉ p) (hp : p ≠ []) : p <:+: x :: b ↔ p <:+: b := by
  have h := infix_append_cons (a := []) (b := b) hx hp
  simpa [hp] using h

end

/-- An occurrence without a character stands on one side of that character. -/
theorem occurrence_append_cons {p a b u v : Text} {x : Char} (hx : x ∉ p) (h : u ++ p ++ v = a ++ x :: b) :
    (∃ z, a = u ++ p ++ z ∧ v = z ++ x :: b) ∨ ∃ z, b = z ++ p ++ v ∧ u = a ++ x :: z := by
  rcases List.append_eq_append_iff.mp h with ⟨z, ha, hv⟩ | ⟨z, hz, hb⟩
  · exact Or.inl ⟨z, ha, hv⟩
  · cases z with
    | nil => exact Or.inl ⟨[], by simpa using hz.symm, hb.symm⟩
    | cons y z =>
      obtain ⟨rfl, rfl⟩ := List.cons.inj hb
      rcases List.append_eq_append_iff.mp hz with ⟨e, -, hp⟩ | ⟨e, rfl, he⟩
      · exact absurd (by rw [hp]; simp) hx
      · cases e with
        | nil => exact absurd (by rw [List.nil_append] at he; rw [← he]; simp) hx
        | cons y e =>
          obtain ⟨rfl, rfl⟩ := List.cons.inj he
          exact Or.inr ⟨e, by simp, rfl⟩

/-! ## Fields -/

section
variable {sep : Char}

@[simp] theorem fields_nil : fields sep [] = [[]] := rfl

@[simp] theorem fields_cons_self (r : Text) : fields sep (sep :: r) = [] :: fields sep r := by
  simp [fields]

theorem fields_cons_of_ne {c : Char} (h : c ≠ sep) (r : Text) :
    fields sep (c :: r) = push c (fields sep r) := by
  simp [fields, h]

theorem push_ne_nil (c : Char) (ls : List Text) : push c ls ≠ [] := by
  cases ls <;> simp [push]

theorem fields_ne_nil (sep : Char) (t : Text) : fields sep t ≠ [] := by
  cases t with
  | nil => simp
  | cons c r =>
    by_cases h : c = sep
    · subst h; simp
    · rw [fields_cons_of_ne h]; exact push_ne_nil c _

theorem push_append {ls : List Text} (h : ls ≠ []) (c : Char) (ms : List Text) :
    push c (ls ++ ms) = push c ls ++ ms := by
  cases ls with
  | nil => exact absurd rfl h
  | cons l ls => rfl

theorem fields_append_cons (a b : Text) : fields sep (a ++ sep :: b) = fields sep a ++ fields sep b := by
  induction a with
  | nil => simp
  | cons c a ih =>
    by_cases h : c = sep
    · subst h; simp [ih]
    · rw [List.cons_append, fields_cons_of_ne h, ih, fields_cons_of_ne h, push_append (fields_ne_nil sep a)]

/-- A text without separators goes to the first field. -/
theorem fields_append_of_not_mem {a b f : Text} {fs : List Text} (ha : sep ∉ a) (hb : fields sep b = f :: fs) :
    fields sep (a ++ b) = (a ++ f) :: fs := by
  induction a with
  | nil => exact hb
  | cons c a ih =>
    rw [List.mem_cons, not_or] at ha
    rw [List.cons_append, fields_cons_of_ne (Ne.symm ha.1), ih ha.2]; rfl

theorem fields_of_not_mem {t : Text} (h : sep ∉ t) : fields sep t = [t] := by
  induction t with
  | nil => rfl
  | cons c r ih =>
    rw [List.mem_cons, not_or] at h
    rw [fields_cons_of_ne (Ne.symm h.1), ih h.2]; rfl

theorem sep_not_mem_fields {t p : Text} (h : p ∈ fields sep t) : sep ∉ p := by
  induction t generalizing p with
  | nil => simp at h; simp [h]
  | cons c r ih =>
    by_cases hc : c = sep
    · subst hc
      rw [fields_cons_self, List.mem_cons] at h
      rcases h with h | h
      · simp [h]
      · exact ih h
    · rw [fields_cons_of_ne hc] at h
      obtain ⟨l, ls, hl⟩ := List.exists_cons_of_ne_nil (fields_ne_nil sep r)
      rw [hl] at h ih
      rcases List.mem_cons.mp h with h | h
      · rw [h, List.mem_cons, not_or]; exact ⟨Ne.symm hc, ih (by simp)⟩
      · exact ih (by simp [h])

/-! ## Joining -/

theorem join_cons {t : Text} {ts : List Text} (m : Text) (h : ts ≠ []) :
    join m (t :: ts) = t ++ m ++ join m ts := by
  cases ts with
  | nil => exact absurd rfl h
  | cons u us => rfl

theorem join_cons_cons (x : Char) (t u : Text) (us : List Text) :
    join [x] (t :: u :: us) = t ++ x :: join [x] (u :: us) := by
  rw [join_cons _ (by simp), List.append_assoc, List.singleton_append]

theorem prefix_join (m t : Text) (ts : List Text) : t <+: join m (t :: ts) := by
  cases ts with
  | nil => exact List.prefix_refl t
  | cons u us => exact ⟨m ++ join m (u :: us), by rw [join_cons (t := t) m (List.cons_ne_nil u us), List.append_assoc]⟩

theorem join_append (m : Text) : ∀ {as bs : List Text}, as ≠ [] → bs ≠ [] →
    join m (as ++ bs) = join m as ++ m ++ join m bs
  | [], _, h, _ => absurd rfl h
  | [a], bs, _, hb => join_cons m hb
  | a :: a' :: as, bs, _, hb => by
    have ih : join m (a' :: as ++ bs) = join m (a' :: as) ++ m ++ join m bs := join_append m (by simp) hb
    rw [List.cons_append, join_cons m (by simp), ih, join_cons (t := a) m (List.cons_ne_nil a' as)]
    simp only [List.append_assoc]

theorem join_push (m : Text) (c : Char) {ts : List Text} (h : ts ≠ []) :
    join m (push c ts) = c :: join m ts := by
  cases ts with
  | nil => exact absurd rfl h
  | cons t ts => cases ts <;> rfl

theorem join_fields (sep : Char) (t : Text) : join [sep] (fields sep t) = t := by
  induction t with
  | nil => rfl
  | cons c r ih =>
    by_cases h : c = sep
    · subst h; rw [fields_cons_self, join_cons _ (fields_ne_nil _ r), ih]; rfl
    · rw [fields_cons_of_ne h, join_push _ _ (fields_ne_nil _ r), ih]

theorem fields_join : ∀ {ts : List Text}, ts ≠ [] → (∀ t ∈ ts, sep ∉ t) → fields sep (join [sep] ts) = ts
  | [], h, _ => absurd rfl h
  | [t], _, h => fields_of_not_mem (h t (by simp))
  | t :: u :: us, _, h => by
    have ih : fields sep (join [sep] (u :: us)) = u :: us :=
      fields_join (by simp) fun v hv => h v (List.mem_cons_of_mem _ hv)
    rw [join_cons_cons, fields_append_cons, ih,
      fields_of_not_mem (h t (by simp))]
    rfl

theorem mem_join {m : Text} {c : Char} : ∀ {ts : List Text}, c ∈ join m ts → c ∈ m ∨ ∃ t ∈ ts, c ∈ t
  | [], h => by simp [join] at h
  | [t], h => Or.inr ⟨t, by simp, h⟩
  | t :: u :: us, h => by
    rw [join_cons _ (by simp), List.mem_append, List.mem_append] at h
    rcases h with (h | h) | h
    · exact Or.inr ⟨t, by simp, h⟩
    · exact Or.inl h
    · rcases mem_join h with h | ⟨v, hv, h⟩
      · exact Or.inl h
      · exact Or.inr ⟨v, List.mem_cons_of_mem _ hv, h⟩

theorem mem_join_of_mem {m : Text} {c : Char} : ∀ {ts : List Text} {t : Text}, t ∈ ts → c ∈ t → c ∈ join m ts
  | [t], _, h, hc => by rw [List.mem_singleton] at h; rw [h] at hc; exact hc
  | t :: u :: us, v, h, hc => by
    rw [join_cons _ (by simp), List.mem_append, List.mem_append]
    rcases List.mem_cons.mp h with h | h
    · rw [h] at hc; exact Or.inl (Or.inl hc)
    · exact Or.inr (mem_join_of_mem h hc)

theorem mem_of_mem_fields {t p : Text} {c : Char} (h : p ∈ fields sep t) (hc : c ∈ p) : c ∈ t := by
  rw [← join_fields sep t]
  exact mem_join_of_mem h hc

theorem infix_join {m t : Text} : ∀ {ts : List Text}, t ∈ ts → t <:+: join m ts
  | [u], h => by rw [List.mem_singleton.mp h]; exact List.infix_rfl
  | u :: v :: ts, h => by
    rw [join_cons _ (by simp)]
    rcases List.mem_cons.mp h with rfl | h
    · rw [List.append_assoc]; exact (List.prefix_append _ _).isInfix
    · exact (infix_join h).trans (List.suffix_append _ _).isInfix

theorem infix_of_mem_fields {t p : Text} (h : p ∈ fields sep t) : p <:+: t := by
  rw [← join_fields sep t]
  exact infix_join h

/-! ## The first occurrence of a character -/

theorem cut?_eq_some_iff {t a b : Text} : cut? sep t = some (a, b) ↔ t = a ++ sep :: b ∧ sep ∉ a := by
  induction t generalizing a with
  | nil => simp [cut?]
  | cons c r ih =>
    by_cases h : c = sep
    · subst h
      cases a with
      | nil => simp [cut?, eq_comm]
      | cons d a => simp [cut?]; intro h _ hd; exact absurd h hd
    · simp only [cut?, h, ite_false, Option.map_eq_some_iff, Prod.mk.injEq, Prod.exists]
      constructor
      · rintro ⟨u, v, hu, rfl, rfl⟩
        obtain ⟨rfl, hs⟩ := ih.mp hu
        simp [hs, Ne.symm h]
      · rintro ⟨ht, hs⟩
        cases a with
        | nil => simp at ht; exact absurd ht.1 h
        | cons d a =>
          rw [List.cons_append, List.cons.injEq] at ht
          rw [List.mem_cons, not_or] at hs
          exact ⟨a, b, ih.mpr ⟨ht.2, hs.2⟩, by rw [ht.1], rfl⟩

theorem cut?_eq_none_iff {t : Text} : cut? sep t = none ↔ sep ∉ t := by
  rw [Option.eq_none_iff_forall_ne_some]
  constructor
  · intro h hm
    obtain ⟨a, b, ht, ha⟩ := List.eq_append_cons_of_mem hm
    exact h (a, b) (cut?_eq_some_iff.mpr ⟨ht, ha⟩)
  · rintro h ⟨a, b⟩ ht
    rw [(cut?_eq_some_iff.mp ht).1] at h
    exact h (by simp)

/-- The first place of a character cuts a text in one way. -/
theorem eq_of_first {a b a' b' : Text} (ha : sep ∉ a) (ha' : sep ∉ a') (h : a ++ sep :: b = a' ++ sep :: b') :
    a = a' ∧ b = b' := by
  have hcut : cut? sep (a ++ sep :: b) = some (a, b) := cut?_eq_some_iff.mpr ⟨rfl, ha⟩
  have hcut' : cut? sep (a' ++ sep :: b') = some (a', b') := cut?_eq_some_iff.mpr ⟨rfl, ha'⟩
  rw [h, hcut', Option.some.injEq, Prod.mk.injEq] at hcut
  exact ⟨hcut.1.symm, hcut.2.symm⟩

end

/-! ## Rows -/

theorem rows_cons_newline (r : Text) : rows ('\n' :: r) = [] :: rows r := fields_cons_self r

theorem rows_cons {c : Char} (h : c ≠ '\n') (r : Text) : rows (c :: r) = push c (rows r) :=
  fields_cons_of_ne h r

theorem rows_ne_nil (t : Text) : rows t ≠ [] := fields_ne_nil _ t

theorem prefix_head_rows {m : Text} (hm : '\n' ∉ m) (t : Text) : m <+: t ↔ m <+: (rows t).headD [] := by
  conv_lhs => rw [← join_fields '\n' t]
  change m <+: join ['\n'] (rows t) ↔ _
  obtain ⟨l, ls, hl⟩ := List.exists_cons_of_ne_nil (rows_ne_nil t)
  rw [hl]
  cases ls with
  | nil => rfl
  | cons k ls =>
    rw [join_cons_cons, prefix_append_cons hm]; rfl

/-- What stands after a line feed starts a row that is not the first. -/
theorem infix_newline_iff {m : Text} (hm : '\n' ∉ m) : ∀ t : Text,
    '\n' :: m <:+: t ↔ ∃ r ∈ (rows t).tail, m <+: r
  | [] => by simp [rows]
  | c :: t => by
    obtain ⟨l, ls, hl⟩ := List.exists_cons_of_ne_nil (rows_ne_nil t)
    have ih := infix_newline_iff hm t
    rw [List.infix_cons_iff, ih]
    by_cases h : c = '\n'
    · subst h
      rw [rows_cons_newline, List.cons_prefix_cons, prefix_head_rows hm, hl]
      simp
    · rw [rows_cons h, List.cons_prefix_cons, hl]
      simp [push, Ne.symm h]

end AgentRules.Text
