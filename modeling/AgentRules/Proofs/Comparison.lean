import Mathlib
import AgentRules.Comparison

/-!
# Comparison in any order

Whether two rules conflict, and how much they share, does not depend on which of them comes first. So
the same rules in another order get the same reports, but for the order of the reports and of the two
names in each. Main statement: `comparison_of_perm`.
-/

namespace AgentRules

/-! ## Pairs -/

section
variable {α β : Type}

theorem pairs_map (g : α → β) (as : List α) : pairs (as.map g) = (pairs as).map (Prod.map g g) := by
  induction as with
  | nil => rfl
  | cons a as ih => simp [pairs, ih, Function.comp_def]

/-- A test that does not tell the two members of a pair apart finds the same in any order. -/
theorem perm_filterMap_pairs {f : α → α → Option β} (hf : ∀ a b, f a b = f b a) {as bs : List α} (h : as.Perm bs) :
    ((pairs as).filterMap fun p => f p.1 p.2).Perm ((pairs bs).filterMap fun p => f p.1 p.2) := by
  have hcons : ∀ (a : α) (as : List α), ((pairs (a :: as)).filterMap fun p => f p.1 p.2) =
      as.filterMap (f a) ++ (pairs as).filterMap fun p => f p.1 p.2 := by
    intro a as
    rw [pairs, List.filterMap_append, List.filterMap_map]; rfl
  induction h with
  | nil => exact List.Perm.refl _
  | cons a h ih =>
    rw [hcons, hcons]
    exact (h.filterMap (f a)).append ih
  | swap a b as =>
    simp only [hcons, List.filterMap_cons, hf b a]
    cases f a b with
    | none =>
      simp only [← List.append_assoc]
      exact List.perm_append_comm.append_right _
    | some x =>
      simp only [List.cons_append, ← List.append_assoc]
      exact (List.perm_append_comm.append_right _).cons x
  | trans _ _ ih₁ ih₂ => exact ih₁.trans ih₂

/-- What a test finds at two positions of a list. -/
def between? (f : α → α → Option β) (as : List α) (ij : ℕ × ℕ) : Option β :=
  as[ij.1]?.bind fun a => as[ij.2]?.bind fun b => f a b

theorem filterMap_pairs_eq (f : α → α → Option β) (as : List α) :
    ((pairs as).filterMap fun p => f p.1 p.2) = (pairs (List.range as.length)).filterMap (between? f as) := by
  have hget : as.map some = (List.range as.length).map (as[·]?) := by
    apply List.ext_getElem?
    intro i
    by_cases hi : i < as.length
    · simp [hi]
    · simp [hi]
  have hpairs := congrArg (List.filterMap fun p : Option α × Option α => p.1.bind fun a => p.2.bind fun b => f a b)
    (congrArg pairs hget)
  rw [pairs_map, pairs_map, List.filterMap_map, List.filterMap_map] at hpairs
  exact hpairs

theorem mem_pairs_iff {as : List ℕ} (h : as.Pairwise (· < ·)) {i j : ℕ} :
    (i, j) ∈ pairs as ↔ i ∈ as ∧ j ∈ as ∧ i < j := by
  induction as with
  | nil => simp [pairs]
  | cons a as ih =>
    rw [List.pairwise_cons] at h
    rw [pairs, List.mem_append, ih h.2, List.mem_map]
    constructor
    · rintro (⟨k, hk, he⟩ | ⟨hi, hj, hlt⟩)
      · obtain ⟨rfl, rfl⟩ := Prod.mk.inj he
        exact ⟨List.mem_cons_self, List.mem_cons_of_mem a hk, h.1 k hk⟩
      · exact ⟨List.mem_cons_of_mem a hi, List.mem_cons_of_mem a hj, hlt⟩
    · rintro ⟨hi, hj, hlt⟩
      rcases List.mem_cons.mp hj with rfl | hj'
      · -- Nothing in the list is less than its first member.
        rcases List.mem_cons.mp hi with rfl | hi'
        · omega
        · have := h.1 i hi'
          omega
      · rcases List.mem_cons.mp hi with rfl | hi'
        · exact Or.inl ⟨j, hj', rfl⟩
        · exact Or.inr ⟨hi', hj', hlt⟩

theorem pairs_pairwise {as : List ℕ} (h : as.Pairwise (· < ·)) :
    (pairs as).Pairwise fun p q => p.1 < q.1 ∨ p.1 = q.1 ∧ p.2 < q.2 := by
  induction as with
  | nil => exact List.Pairwise.nil
  | cons a as ih =>
    have hcons := List.pairwise_cons.mp h
    rw [pairs, List.pairwise_append, List.pairwise_map]
    refine ⟨hcons.2.imp fun hlt => Or.inr ⟨rfl, hlt⟩, ih hcons.2, ?_⟩
    intro p hp q hq
    obtain ⟨b, -, rfl⟩ := List.mem_map.mp hp
    exact Or.inl (hcons.1 q.1 ((mem_pairs_iff hcons.2).mp hq).1)

end

/-! ## Conflicts -/

theorem Glob.overlap_iff {a b : Text} : Glob.overlap a b = true ↔ a = b ∨ isUniversal a = true ∨
    isUniversal b = true ∨ ∃ x, extension? a = some x ∧ extension? b = some x := by
  unfold Glob.overlap
  cases extension? a with
  | none => simp [or_assoc]
  | some x =>
    cases extension? b with
    | none => simp [or_assoc]
    | some y =>
      have hsame : (∃ z, some x = some z ∧ some y = some z) ↔ x = y := by
        simp [eq_comm]
      simp only [hsame, Bool.or_eq_true, decide_eq_true_eq, or_assoc]

theorem Glob.overlap_comm (a b : Text) : Glob.overlap a b = Glob.overlap b a := by
  have hsymm : ∀ a b : Text, Glob.overlap a b = true → Glob.overlap b a = true := by
    intro a b h
    rw [Glob.overlap_iff] at h ⊢
    rcases h with h | h | h | ⟨x, ha, hb⟩
    · exact Or.inl h.symm
    · exact Or.inr (Or.inr (Or.inl h))
    · exact Or.inr (Or.inl h)
    · exact Or.inr (Or.inr (Or.inr ⟨x, hb, ha⟩))
  exact Bool.eq_iff_iff.mpr ⟨hsymm a b, hsymm b a⟩

theorem Scope.meets_comm (a b : Scope) : a.meets b = b.meets a := by
  have hglobs : a.globsOverlap b = b.globsOverlap a := by
    rw [Bool.eq_iff_iff, globsOverlap, globsOverlap]
    simp only [List.any_eq_true]
    constructor
    · rintro ⟨p, hp, q, hq, h⟩
      exact ⟨q, hq, p, hp, by rw [Glob.overlap_comm]; exact h⟩
    · rintro ⟨q, hq, p, hp, h⟩
      exact ⟨p, hp, q, hq, by rw [Glob.overlap_comm]; exact h⟩
  rw [meets, meets, hglobs, Bool.or_comm a.always]

theorem Opposition.Stance.opposes_comm (a b : Stance) : a.opposes b = b.opposes a := by
  rw [opposes, opposes, Bool.or_comm, Bool.and_comm, Bool.and_comm a.first]

theorem opposedReasons_comm (os : List Opposition) : ∀ as bs : List Opposition.Stance,
    opposedReasons os as bs = opposedReasons os bs as := by
  induction os with
  | nil =>
    intro as bs
    rw [opposedReasons.eq_2, opposedReasons.eq_2] <;> simp
  | cons o os ih =>
    intro as bs
    cases as with
    | nil => cases bs <;> rfl
    | cons a as =>
      cases bs with
      | nil => rfl
      | cons b bs => rw [opposedReasons, opposedReasons, ih as bs, a.opposes_comm b]

/-- A conflict without the order of its two rules. -/
def Conflict.unordered (c : Conflict) : Sym2 String × List String := (s(c.first, c.second), c.reasons)

def Rule.conflict? (a b : Rule) : Option Conflict := (Profile.ofRule a).conflict? (Profile.ofRule b)

theorem conflict?_comm (a b : Rule) :
    (a.conflict? b).map Conflict.unordered = (b.conflict? a).map Conflict.unordered := by
  simp only [Rule.conflict?, Profile.conflict?]
  rw [Scope.meets_comm, opposedReasons_comm]
  split
  · split
    · rfl
    · rw [Option.map_some, Option.map_some, Conflict.unordered, Conflict.unordered, Sym2.eq_swap]
  · rfl

theorem conflicts_eq (rs : List Rule) : conflicts rs = (pairs rs).filterMap fun p => p.1.conflict? p.2 := by
  rw [conflicts, pairs_map, List.filterMap_map]; rfl

/-! ## Redundancy -/

theorem nodup_eraseDups (ls : List Text) : ls.eraseDups.Nodup := by
  induction ls using List.reverseRecOn with
  | nil => exact List.nodup_nil
  | append_singleton ls l ih =>
    rw [List.eraseDups_append]
    by_cases hl : l ∈ ls
    · simpa [List.removeAll, hl] using ih
    · have hlast : [l].removeAll ls = [l] := by simp [List.removeAll, hl]
      rw [hlast]
      refine List.Nodup.append ih (List.nodup_singleton l) ?_
      intro x hx hxl
      rw [List.mem_eraseDups] at hx
      exact hl (by rwa [List.mem_singleton.mp hxl] at hx)

theorem nodup_longLines (n : ℤ) (body : Text) : (longLines n body).Nodup := nodup_eraseDups _

/-- The lines that two rules share are the same from either side. -/
theorem length_shared_comm {as bs : List Text} (ha : as.Nodup) (hb : bs.Nodup) :
    (as.filter bs.contains).length = (bs.filter as.contains).length := by
  apply List.Perm.length_eq
  rw [List.perm_ext_iff_of_nodup (ha.filter _) (hb.filter _)]
  intro l
  simp only [List.mem_filter, List.contains_iff_mem, and_comm]

/-- A redundancy without the order of its two rules. -/
def Redundancy.unordered (r : Redundancy) : Sym2 String × Int × ℕ := (s(r.first, r.second), r.percent, r.shared)

def Rule.redundancy? (how : Likeness) (a b : Rule) : Option Redundancy :=
  AgentRules.redundancy? how.threshold (a.identifier, longLines how.minLength a.body)
    (b.identifier, longLines how.minLength b.body)

theorem redundancy?_comm (how : Likeness) (a b : Rule) :
    (a.redundancy? how b).map Redundancy.unordered = (b.redundancy? how a).map Redundancy.unordered := by
  have hshared := length_shared_comm (nodup_longLines how.minLength a.body) (nodup_longLines how.minLength b.body)
  simp only [Rule.redundancy?, AgentRules.redundancy?]
  rw [hshared, min_comm, Bool.or_comm]
  split
  · rfl
  · split
    · rw [Option.map_map, Option.map_map]
      congr 1
      funext percent
      simp only [Function.comp, Redundancy.unordered, Sym2.eq_swap]
    · rfl

theorem redundancies_eq (how : Likeness) (rs : List Rule) :
    redundancies how rs = (pairs rs).filterMap fun p => p.1.redundancy? how p.2 := by
  rw [redundancies, pairs_map, List.filterMap_map]; rfl

/-! ## Any order -/

/-- **Comparison in any order.** Rules in another order get the same reports. Of one list, every two
positions get one report at most of each kind, in the order of the first and then of the second. -/
theorem comparison_of_perm (how : Likeness) {rs qs : List Rule} (h : rs.Perm qs) :
    ((Comparison.ofRules how rs).conflicts.map Conflict.unordered).Perm
      ((Comparison.ofRules how qs).conflicts.map Conflict.unordered) ∧
    ((Comparison.ofRules how rs).redundancies.map Redundancy.unordered).Perm
      ((Comparison.ofRules how qs).redundancies.map Redundancy.unordered) ∧
    ∃ ps : List (ℕ × ℕ), (∀ i j, (i, j) ∈ ps ↔ i < j ∧ j < rs.length) ∧
      (ps.Pairwise fun p q => p.1 < q.1 ∨ p.1 = q.1 ∧ p.2 < q.2) ∧
      (Comparison.ofRules how rs).conflicts = ps.filterMap (between? Rule.conflict? rs) ∧
      (Comparison.ofRules how rs).redundancies = ps.filterMap (between? (Rule.redundancy? how) rs) := by
  refine ⟨?_, ?_, pairs (List.range rs.length), ?_, pairs_pairwise List.pairwise_lt_range, ?_, ?_⟩
  · simp only [Comparison.ofRules, conflicts_eq, List.map_filterMap]
    exact perm_filterMap_pairs conflict?_comm h
  · simp only [Comparison.ofRules, redundancies_eq, List.map_filterMap]
    exact perm_filterMap_pairs (redundancy?_comm how) h
  · intro i j
    rw [mem_pairs_iff List.pairwise_lt_range, List.mem_range, List.mem_range]
    omega
  · exact (conflicts_eq rs).trans (filterMap_pairs_eq _ rs)
  · exact (redundancies_eq how rs).trans (filterMap_pairs_eq _ rs)

def withTabs : Rule := ⟨"a", .modern, "---\nalwaysApply: true\n---\nuse tabs".toList⟩

def withSpaces (name : String) : Rule := ⟨name, .modern, "---\nglobs: *.ts\n---\nuse spaces only".toList⟩

/-- Three rules, of which one conflicts with the others and those share their lines, in two orders. -/
theorem indentation_rules_in_any_order :
    [withTabs, withSpaces "b", withSpaces "c"].Perm [withSpaces "c", withTabs, withSpaces "b"] ∧
    ((Comparison.ofRules {} [withTabs, withSpaces "b", withSpaces "c"]).conflicts.map Conflict.unordered).Perm
      ((Comparison.ofRules {} [withSpaces "c", withTabs, withSpaces "b"]).conflicts.map Conflict.unordered) ∧
    ((Comparison.ofRules {} [withTabs, withSpaces "b", withSpaces "c"]).redundancies.map Redundancy.unordered).Perm
      ((Comparison.ofRules {} [withSpaces "c", withTabs, withSpaces "b"]).redundancies.map Redundancy.unordered) ∧
    (Comparison.ofRules {} [withTabs, withSpaces "b", withSpaces "c"]).conflicts =
      [⟨"a", "b", ["Conflicting style: \"use tabs\" vs \"use spaces\""]⟩,
        ⟨"a", "c", ["Conflicting style: \"use tabs\" vs \"use spaces\""]⟩] ∧
    (Comparison.ofRules {} [withTabs, withSpaces "b", withSpaces "c"]).redundancies = [⟨"b", "c", 100, 1⟩] := by
  have hperm : [withTabs, withSpaces "b", withSpaces "c"].Perm [withSpaces "c", withTabs, withSpaces "b"] := by decide
  obtain ⟨hconflicts, hredundancies, -⟩ := comparison_of_perm {} hperm
  exact ⟨hperm, hconflicts, hredundancies, by decide +kernel, by decide +kernel⟩

end AgentRules
