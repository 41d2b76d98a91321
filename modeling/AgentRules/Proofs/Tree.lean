import Mathlib
import AgentRules.Tree
import AgentRules.Proofs.Text.Unbroken
import AgentRules.Proofs.Text.Utf8

/-!
# What a file tree holds

A tree is known by what it holds at each place. Writing and erasing change one place only, and what
is read after writing is the text that was written. The names in a directory come in their order,
each of them once.
-/

namespace AgentRules

/-! ## The order of names -/

namespace Text

theorem le_total : ∀ a b : Text, (le a b || le b a) = true
  | [], _ => by simp [le]
  | _ :: _, [] => by simp [le]
  | a :: s, b :: t => by
    have ih := le_total s t
    rcases lt_trichotomy a b with h | h | h
    · simp [le, h]
    · subst h; simpa [le] using ih
    · simp [le, h]

theorem le_trans : ∀ a b c : Text, le a b = true → le b c = true → le a c = true
  | [], _, _, _, _ => by simp [le]
  | _ :: _, [], _, h, _ => by simp [le] at h
  | _ :: _, _ :: _, [], _, h => by simp [le] at h
  | a :: s, b :: t, c :: u, hab, hbc => by
    simp only [le, Bool.or_eq_true, Bool.and_eq_true, decide_eq_true_eq, beq_iff_eq] at hab hbc ⊢
    rcases hab with hab | ⟨rfl, hab⟩
    · rcases hbc with hbc | ⟨rfl, -⟩
      · exact Or.inl (hab.trans hbc)
      · exact Or.inl hab
    · rcases hbc with hbc | ⟨rfl, hbc⟩
      · exact Or.inl hbc
      · exact Or.inr ⟨rfl, le_trans s t u hab hbc⟩

theorem le_antisymm : ∀ a b : Text, le a b = true → le b a = true → a = b
  | [], [], _, _ => rfl
  | [], _ :: _, _, h => by simp [le] at h
  | _ :: _, [], h, _ => by simp [le] at h
  | a :: s, b :: t, hab, hba => by
    simp only [le, Bool.or_eq_true, Bool.and_eq_true, decide_eq_true_eq, beq_iff_eq] at hab hba
    rcases hab with hab | ⟨rfl, hab⟩
    · rcases hba with hba | ⟨rfl, -⟩
      · exact absurd hab hba.not_gt
      · exact absurd hab (lt_irrefl _)
    · rcases hba with hba | ⟨-, hba⟩
      · exact absurd hba (lt_irrefl _)
      · rw [le_antisymm s t hab hba]

end Text

theorem nameLe_total (a b : String) : (nameLe a b || nameLe b a) = true := Text.le_total _ _

theorem nameLe_trans {a b c : String} (h : nameLe a b = true) (h' : nameLe b c = true) : nameLe a c = true :=
  Text.le_trans _ _ _ h h'

theorem nameLe_antisymm {a b : String} (h : nameLe a b = true) (h' : nameLe b a = true) : a = b :=
  String.toList_injective (Text.le_antisymm _ _ h h')

theorem sortNames_perm (names : List String) : (sortNames names).Perm names := List.mergeSort_perm _ _

theorem sortNames_pairwise (names : List String) : (sortNames names).Pairwise fun a b => nameLe a b = true := by
  apply List.pairwise_mergeSort
  · intro a b c; exact nameLe_trans
  · exact nameLe_total

namespace Tree

/-! ## Looking up -/

theorem lookup_insert (p q : Place) (n : Node) : ∀ es : List (Place × Node),
    lookup q (insert p n es) = if q = p then some n else lookup q es
  | [] => by by_cases h : p = q <;> simp [insert, lookup, h, eq_comm (a := q)]
  | (r, m) :: es => by
    by_cases hr : r = p
    · subst hr
      by_cases hq : r = q <;> simp [insert, lookup, hq, eq_comm (a := q)]
    · by_cases hq : r = q
      · subst hq; simp [insert, lookup, hr]
      · simp [insert, lookup, hr, hq, lookup_insert p q n es]

theorem lookup_filter (p q : Place) : ∀ es : List (Place × Node),
    lookup q (es.filter (·.1 ≠ p)) = if q = p then none else lookup q es
  | [] => by simp [lookup]
  | (r, m) :: es => by
    have ih := lookup_filter p q es
    by_cases hr : r = p
    · subst hr
      rw [List.filter_cons_of_neg (by simp), ih]
      by_cases hq : q = r
      · simp [hq]
      · simp [lookup, hq, Ne.symm hq]
    · rw [List.filter_cons_of_pos (by simpa using hr)]
      by_cases hq : r = q
      · subst hq; simp [lookup, hr]
      · simp only [lookup, hq, ite_false, ih]

theorem lookup_isSome_iff {p : Place} : ∀ {es : List (Place × Node)},
    (lookup p es).isSome = true ↔ p ∈ es.map (·.1)
  | [] => by simp [lookup]
  | (q, m) :: es => by
    by_cases h : q = p
    · simp [lookup, h]
    · simp only [lookup, h, ite_false, lookup_isSome_iff, List.map_cons, List.mem_cons]
      simp [eq_comm (a := p), h]

@[simp] theorem get?_nil (t : Tree) : t.get? [] = some .directory := rfl

theorem get?_of_ne_nil (t : Tree) {p : Place} (h : p ≠ []) : t.get? p = lookup p t.entries := by
  cases p with
  | nil => exact absurd rfl h
  | cons n p => rfl

theorem get?_set (t : Tree) {p : Place} (hp : p ≠ []) (n : Node) (q : Place) :
    (t.set p n).get? q = if q = p then some n else t.get? q := by
  by_cases hq : q = []
  · subst hq; simp [Ne.symm hp]
  · rw [get?_of_ne_nil _ hq, get?_of_ne_nil _ hq]; exact lookup_insert p q n t.entries

theorem get?_erase (t : Tree) {p : Place} (hp : p ≠ []) (q : Place) :
    (t.erase p).get? q = if q = p then none else t.get? q := by
  by_cases hq : q = []
  · subst hq; simp [Ne.symm hp]
  · rw [get?_of_ne_nil _ hq, get?_of_ne_nil _ hq]; exact lookup_filter p q t.entries

theorem get?_write (t : Tree) {p : Place} (hp : p ≠ []) (x : Text) (q : Place) :
    (t.write p x).get? q = if q = p then some (.file (Utf8.encode x)) else t.get? q := get?_set t hp _ q

/-! ## Files and directories -/

theorem isFile_iff {t : Tree} {p : Place} : t.isFile p = true ↔ ∃ bytes, t.get? p = some (.file bytes) := by
  unfold isFile
  cases t.get? p with
  | none => simp
  | some n => cases n <;> simp

theorem isFile_congr {t u : Tree} {p : Place} (h : t.get? p = u.get? p) : t.isFile p = u.isFile p := by
  simp only [isFile, h]

theorem isDirectory_congr {t u : Tree} {p : Place} (h : t.get? p = u.get? p) :
    t.isDirectory p = u.isDirectory p := by
  simp only [isDirectory, h]

theorem read?_congr {t u : Tree} {p : Place} (h : t.get? p = u.get? p) : t.read? p = u.read? p := by
  simp only [read?, h]

theorem read?_of_written {t : Tree} {p : Place} {x : Text} (h : t.get? p = some (.file (Utf8.encode x))) :
    t.read? p = some (.ok (Text.unifyLineEnds x)) := by
  rw [read?, h]; simp [Except.map]

/-- What has been read has no carriage returns. -/
theorem return_not_mem_of_read? {t : Tree} {p : Place} {x : Text} (h : t.read? p = some (.ok x)) : '\r' ∉ x := by
  unfold read? at h
  split at h
  · next bytes _ =>
    cases hd : Utf8.decode bytes with
    | error f => rw [hd] at h; cases h
    | ok y =>
      rw [hd] at h
      simp only [Except.map, Option.some.injEq, Except.ok.injEq] at h
      rw [← h]; exact Text.return_not_mem_unifyLineEnds y
  · cases h

/-! ## Names -/

theorem child_eq_iff {dir p : Place} {name : String} :
    (if p.dropLast = dir then p.getLast? else none) = some name ↔ p = dir ++ [name] := by
  constructor
  · intro h
    split at h
    · next hd => rw [← hd]; exact (List.dropLast_append_getLast? name h).symm
    · cases h
  · rintro rfl; simp

theorem mem_names {t : Tree} {dir : Place} {name : String} :
    name ∈ t.names dir ↔ (t.get? (dir ++ [name])).isSome = true := by
  rw [names, (sortNames_perm _).mem_iff, get?_of_ne_nil _ (by simp), lookup_isSome_iff]
  simp only [List.mem_filterMap, child_eq_iff, List.mem_map]

theorem names_nodup (t : Tree) (dir : Place) : (t.names dir).Nodup := by
  rw [names, (sortNames_perm _).nodup_iff]
  have h : (t.entries.map (·.1)).filterMap (fun p => if p.dropLast = dir then p.getLast? else none) =
      t.entries.filterMap fun e => if e.1.dropLast = dir then e.1.getLast? else none := by
    rw [List.filterMap_map]; rfl
  rw [← h]
  refine t.nodup.filterMap fun p q name hp hq => ?_
  rw [Option.mem_def, child_eq_iff] at hp hq
  rw [hp, hq]

theorem names_pairwise (t : Tree) (dir : Place) :
    (t.names dir).Pairwise fun a b => nameLe a b = true ∧ a ≠ b :=
  (sortNames_pairwise _).and (names_nodup t dir)

end Tree
end AgentRules
