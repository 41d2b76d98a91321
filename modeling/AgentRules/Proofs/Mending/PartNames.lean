import Mathlib
import AgentRules.Mending
import AgentRules.Proofs.Project

/-!
# The names of parts

The name of a part comes before the name of its document, for a dash comes before a point, and it
tells the document and the number of the part. So a document that has been divided is not named
like a part of an earlier one, and no two parts have one name.
-/

namespace AgentRules.Mending.Run

open Project (Document stem? LiesIn ruleSuffix)

theorem toList_suffix (q : Part) : q.suffix.toList = "-part".toList ++ Nat.toDigits 10 q.number := by
  simp [Part.suffix, toString]

theorem partName_eq {d : Document} {stem : String} (h : stem? d.name = some stem) (q : Part) :
    partName d q = stem ++ q.suffix ++ ruleSuffix := by
  rw [partName, h]; rfl

theorem le_append_left (a b c : Text) : Text.le (a ++ b) (a ++ c) = Text.le b c := by
  induction a with
  | nil => rfl
  | cons x a ih => simp [Text.le, ih]

theorem partName_before {dir : Place} {d : Document} (h : LiesIn dir d) (q : Part) :
    nameLe (partName d q) d.name = true ∧ partName d q ≠ d.name := by
  obtain ⟨stem, hs⟩ := Option.isSome_iff_exists.mp h.stem
  have hd := (Project.stem?_eq_some_iff.mp hs).2
  have hp : (partName d q).toList = stem.toList ++ (q.suffix.toList ++ ruleSuffix.toList) := by
    rw [partName_eq hs]; simp
  have hn : d.name.toList = stem.toList ++ ruleSuffix.toList := by rw [hd]; simp
  constructor
  · rw [nameLe, hp, hn, le_append_left, toList_suffix]; rfl
  · intro he
    rw [← String.toList_inj, hp, hn, List.append_cancel_left_eq, toList_suffix] at he
    exact absurd (List.cons.inj he).1 (by decide)

/-- The digits at the end of a text after a character that is no digit. -/
theorem digits_at_end {a b : Text} {m n : Nat}
    (h : a ++ "-part".toList ++ Nat.toDigits 10 m = b ++ "-part".toList ++ Nat.toDigits 10 n) : a = b ∧ m = n := by
  have hdigits : ∀ k : Nat, ∀ c ∈ (Nat.toDigits 10 k).reverse, Char.isDigit c = true := fun k c hc =>
    Nat.isDigit_of_mem_toDigits (by decide) (by decide) (List.mem_reverse.mp hc)
  have htake : ∀ (t : Text) (k : Nat),
      (t ++ "-part".toList ++ Nat.toDigits 10 k).reverse.takeWhile Char.isDigit = (Nat.toDigits 10 k).reverse := by
    intro t k
    rw [List.reverse_append, List.takeWhile_append_of_pos (hdigits k), List.reverse_append]
    exact List.append_nil _
  have hmn : Nat.toDigits 10 m = Nat.toDigits 10 n := by
    rw [← List.reverse_inj, ← htake a m, h, htake b n]
  rw [hmn, List.append_cancel_right_eq, List.append_cancel_right_eq] at h
  refine ⟨h, Nat.repr_injective ?_⟩
  rw [← String.toList_inj, Nat.toList_repr, Nat.toList_repr, hmn]

/-- The name of a part tells the document and the number. -/
theorem partName_inj {dir : Place} {d e : Document} (hd : LiesIn dir d) (he : LiesIn dir e) {q r : Part}
    (h : partName d q = partName e r) : d.name = e.name ∧ q.number = r.number := by
  obtain ⟨a, ha⟩ := Option.isSome_iff_exists.mp hd.stem
  obtain ⟨b, hb⟩ := Option.isSome_iff_exists.mp he.stem
  rw [partName_eq ha, partName_eq hb, String.append_left_inj, ← String.toList_inj, String.toList_append,
    String.toList_append, toList_suffix, toList_suffix, ← List.append_assoc, ← List.append_assoc] at h
  obtain ⟨hab, hn⟩ := digits_at_end h
  rw [(Project.stem?_eq_some_iff.mp ha).2, (Project.stem?_eq_some_iff.mp hb).2, String.toList_injective hab]
  exact ⟨rfl, hn⟩

theorem stem?_partName {dir : Place} {d : Document} (h : LiesIn dir d) (q : Part) :
    (stem? (partName d q)).isSome = true := by
  obtain ⟨stem, hs⟩ := Option.isSome_iff_exists.mp h.stem
  rw [Option.isSome_iff_exists]
  refine ⟨stem ++ q.suffix, Project.stem?_eq_some_iff.mpr ⟨?_, partName_eq hs q⟩⟩
  intro he
  exact (Project.stem?_eq_some_iff.mp hs).1 (String.append_eq_empty_iff.mp he).1

theorem place_sibling {dir : Place} {d : Document} (h : LiesIn dir d) (name : String) :
    (sibling d name).place = dir ++ [name] := by
  rw [sibling, h.place]; simp

end AgentRules.Mending.Run
