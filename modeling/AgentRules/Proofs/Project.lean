import Mathlib
import AgentRules.Project
import AgentRules.Proofs.Tree

/-!
# The documents of a project

Which documents a project has hangs on what there is in its rules directory, not on what the files
hold. The documents come in the order of their names, each of them once.
-/

namespace AgentRules

/-! ## Trees with the same places -/

/-- Two trees with files at the same places and directories at the same places. -/
structure Tree.SameShape (t u : Tree) : Prop where
  file : ∀ q, t.isFile q = u.isFile q
  directory : ∀ q, t.isDirectory q = u.isDirectory q

namespace Tree

theorem isSome_get? (t : Tree) (q : Place) : (t.get? q).isSome = (t.isFile q || t.isDirectory q) := by
  unfold isFile isDirectory
  cases t.get? q with
  | none => rfl
  | some n => cases n <;> simp

theorem SameShape.refl (t : Tree) : SameShape t t := ⟨fun _ => rfl, fun _ => rfl⟩

theorem SameShape.trans {t u v : Tree} (h : SameShape t u) (h' : SameShape u v) : SameShape t v :=
  ⟨fun q => (h.file q).trans (h'.file q), fun q => (h.directory q).trans (h'.directory q)⟩

theorem sameShape_write {t : Tree} {p : Place} (hp : p ≠ []) (h : t.isFile p = true) (x : Text) :
    SameShape (t.write p x) t := by
  obtain ⟨bytes, hb⟩ := isFile_iff.mp h
  constructor
  · intro q
    by_cases hq : q = p
    · simp [isFile, get?_write t hp, hq, hb]
    · exact isFile_congr (by rw [get?_write t hp, if_neg hq])
  · intro q
    by_cases hq : q = p
    · simp [isDirectory, get?_write t hp, hq, hb]
    · exact isDirectory_congr (by rw [get?_write t hp, if_neg hq])

theorem names_eq_of_sameShape {t u : Tree} (h : SameShape t u) (dir : Place) : t.names dir = u.names dir := by
  have hperm : (t.names dir).Perm (u.names dir) := by
    rw [List.perm_ext_iff_of_nodup (names_nodup t dir) (names_nodup u dir)]
    intro name
    rw [mem_names, mem_names, isSome_get?, isSome_get?, h.file, h.directory]
  refine List.Perm.eq_of_pairwise ?_ (names_pairwise t dir) (names_pairwise u dir) hperm
  intro a b _ _ hab hba
  exact nameLe_antisymm hab.1 hba.1

end Tree

namespace Project

/-! ## Names -/

theorem stem?_eq_some_iff {name stem : String} : stem? name = some stem ↔ stem ≠ "" ∧ name = stem ++ ruleSuffix := by
  have hstart : ∀ r : Text, ruleSuffix.toList.reverse.isPrefixOf? name.toList.reverse = some r ↔
      name.toList = r.reverse ++ ruleSuffix.toList := by
    intro r
    rw [List.isPrefixOf?_eq_some_iff_append_eq, ← List.reverse_inj]
    simp [eq_comm]
  unfold stem?
  constructor
  · intro h
    split at h
    · next c r hr =>
      rw [← Option.some.inj h]
      refine ⟨?_, String.toList_injective ?_⟩
      · intro he
        have := congrArg String.toList he
        simp at this
      · rw [(hstart _).mp hr, String.toList_append, String.toList_ofList]
    · cases h
  · rintro ⟨hne, rfl⟩
    have hnil : stem.toList ≠ [] := fun h => hne (String.toList_injective (by rw [h]; rfl))
    have hr := (hstart stem.toList.reverse).mpr (by simp)
    rw [hr]
    cases hs : stem.toList.reverse with
    | nil => exact absurd (List.reverse_eq_nil_iff.mp hs) hnil
    | cons c r =>
      simp only
      rw [← hs, List.reverse_reverse, String.ofList_toList]

/-- A document that lies in a directory, under a name of a rule document. -/
structure LiesIn (dir : Place) (d : Document) : Prop where
  place : d.place = dir ++ [d.name]
  stem : (stem? d.name).isSome = true

theorem LiesIn.place_ne_nil {dir : Place} {d : Document} (h : LiesIn dir d) : d.place ≠ [] := by
  rw [h.place]; simp

theorem LiesIn.place_eq_iff {dir : Place} {d e : Document} (hd : LiesIn dir d) (he : LiesIn dir e) :
    d.place = e.place ↔ d.name = e.name := by
  rw [hd.place, he.place]; simp

def ruleDocument (p : Project) (dir : Place) (name : String) : Document :=
  ⟨p.path.below (rulesNames ++ [name]), dir ++ [name], .modern⟩

@[simp] theorem name_ruleDocument (p : Project) (dir : Place) (name : String) : (p.ruleDocument dir name).name = name := by
  simp [ruleDocument, Document.name, Path.name, Path.below]

theorem liesIn_ruleDocument (p : Project) (dir : Place) {name : String} (h : (stem? name).isSome = true) :
    LiesIn dir (p.ruleDocument dir name) where
  place := by rw [name_ruleDocument]; rfl
  stem := by rw [name_ruleDocument]; exact h

/-! ## The documents in the rules directory -/

section
variable {t u : Tree} {p : Project} {dir : Place} {d : Document}

theorem rulesPlace?_eq_some_iff : p.rulesPlace? t = some dir ↔
    ∃ place, p.place? = some place ∧ dir = place ++ rulesNames ∧ t.isDirectory dir = true := by
  unfold rulesPlace?
  cases p.place? with
  | none => simp
  | some place =>
    simp only [Option.some.injEq, Option.ite_none_right_eq_some]
    constructor
    · rintro ⟨h, rfl⟩; exact ⟨place, rfl, rfl, h⟩
    · rintro ⟨_, rfl, rfl, h⟩; exact ⟨h, rfl⟩

theorem mem_ruleNames {name : String} : name ∈ ruleNames t dir ↔
    (stem? name).isSome = true ∧ t.isFile (dir ++ [name]) = true := by
  rw [ruleNames, suffixedNames, List.mem_filter, List.mem_filter, Tree.mem_names, Tree.isSome_get?]
  constructor
  · rintro ⟨⟨-, hs⟩, hf⟩; exact ⟨hs, hf⟩
  · rintro ⟨hs, hf⟩; exact ⟨⟨by rw [hf]; rfl, hs⟩, hf⟩

theorem ruleNames_pairwise (t : Tree) (dir : Place) :
    (ruleNames t dir).Pairwise fun a b => nameLe a b = true ∧ a ≠ b :=
  (Tree.names_pairwise t dir).sublist (List.filter_sublist.trans List.filter_sublist)

theorem ruleNames_eq_of_sameShape (h : Tree.SameShape t u) (dir : Place) : ruleNames t dir = ruleNames u dir := by
  simp only [ruleNames, suffixedNames, Tree.names_eq_of_sameShape h, h.file]

theorem modernDocuments_eq (h : p.rulesPlace? t = some dir) :
    p.modernDocuments t = (ruleNames t dir).map (p.ruleDocument dir) := by
  obtain ⟨place, hp, rfl, -⟩ := rulesPlace?_eq_some_iff.mp h
  simp only [modernDocuments, hp, h]
  exact List.map_congr_left fun name _ => by simp [document, ruleDocument]

theorem modernDocuments_of_none (h : p.rulesPlace? t = none) : p.modernDocuments t = [] := by
  unfold modernDocuments
  rw [h]
  cases p.place? <;> rfl

theorem rulesPlace?_eq_of_sameShape (h : Tree.SameShape t u) (p : Project) : p.rulesPlace? t = p.rulesPlace? u := by
  simp only [rulesPlace?, h.directory]

theorem modernDocuments_eq_of_sameShape (h : Tree.SameShape t u) (p : Project) :
    p.modernDocuments t = p.modernDocuments u := by
  simp only [modernDocuments, rulesPlace?_eq_of_sameShape h, ruleNames_eq_of_sameShape h]

theorem mem_modernDocuments (h : p.rulesPlace? t = some dir) : d ∈ p.modernDocuments t ↔
    ∃ name, (stem? name).isSome = true ∧ t.isFile (dir ++ [name]) = true ∧ d = p.ruleDocument dir name := by
  rw [modernDocuments_eq h, List.mem_map]
  simp only [mem_ruleNames, and_assoc, eq_comm (a := d)]

theorem liesIn_of_mem (h : p.rulesPlace? t = some dir) (hd : d ∈ p.modernDocuments t) : LiesIn dir d := by
  obtain ⟨name, hs, -, rfl⟩ := (mem_modernDocuments h).mp hd
  exact liesIn_ruleDocument p dir hs

theorem isFile_of_mem (hd : d ∈ p.modernDocuments t) : t.isFile d.place = true := by
  cases h : p.rulesPlace? t with
  | none => rw [modernDocuments_of_none h] at hd; cases hd
  | some dir =>
    obtain ⟨name, -, hf, rfl⟩ := (mem_modernDocuments h).mp hd
    exact hf

theorem modernDocuments_pairwise (t : Tree) (p : Project) :
    (p.modernDocuments t).Pairwise fun d e => nameLe d.name e.name = true ∧ d.name ≠ e.name := by
  cases h : p.rulesPlace? t with
  | none => rw [modernDocuments_of_none h]; exact List.Pairwise.nil
  | some dir =>
    rw [modernDocuments_eq h, List.pairwise_map]
    simpa using ruleNames_pairwise t dir

theorem places_pairwise (t : Tree) (p : Project) :
    (p.modernDocuments t).Pairwise fun d e => d.place ≠ e.place := by
  cases h : p.rulesPlace? t with
  | none => rw [modernDocuments_of_none h]; exact List.Pairwise.nil
  | some dir =>
    refine (modernDocuments_pairwise t p).imp_of_mem fun hd he hlt hp => hlt.2 ?_
    exact ((liesIn_of_mem h hd).place_eq_iff (liesIn_of_mem h he)).mp hp

theorem place_ne_nil_of_mem (hd : d ∈ p.modernDocuments t) : d.place ≠ [] := by
  cases h : p.rulesPlace? t with
  | none => rw [modernDocuments_of_none h] at hd; cases hd
  | some dir => exact (liesIn_of_mem h hd).place_ne_nil

end

/-! ## Reading -/

theorem readText_congr {t u : Tree} {d : Document} (h : t.get? d.place = u.get? d.place) :
    readText t d = readText u d := by
  rw [readText, readText, Tree.read?_congr h]

theorem return_not_mem_of_readText {t : Tree} {d : Document} {x : Text} (h : readText t d = .ok x) : '\r' ∉ x := by
  unfold readText at h
  cases hr : t.read? d.place with
  | none =>
    rw [hr] at h
    rw [← Except.ok.inj h]
    exact List.not_mem_nil
  | some r =>
    rw [hr] at h
    exact Tree.return_not_mem_of_read? (hr.trans (congrArg some h))

theorem readText_of_written {t : Tree} {d : Document} {x : Text} (h : t.get? d.place = some (.file (Utf8.encode x)))
    (hx : '\r' ∉ x) : readText t d = .ok x := by
  rw [readText, Tree.read?_of_written h, Text.unifyLineEnds_eq_self hx]
  rfl

end Project
end AgentRules
