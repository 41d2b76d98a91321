import Mathlib
import AgentRules.Proofs.Mending.FirstPass
import AgentRules.Proofs.Mending.PartNames
import AgentRules.Proofs.Partition

/-!
# The second pass of mending

A step writes the parts of a document and erases the document. Since parts come before their
document in the order of names, no step meets a file that an earlier one has written: it is neither
read nor divided nor erased. Main statement: `divided_divideAll`.
-/

namespace AgentRules

/-! ## Many files -/

def Tree.writeAll (t : Tree) (fs : List (Place × Text)) : Tree := fs.foldl (fun t f => t.write f.1 f.2) t

theorem Tree.get?_writeAll_of_not_mem {q : Place} : ∀ {fs : List (Place × Text)} (t : Tree),
    (∀ f ∈ fs, f.1 ≠ []) → q ∉ fs.map (·.1) → (t.writeAll fs).get? q = t.get? q
  | [], _, _, _ => rfl
  | f :: fs, t, hp, hq => by
    rw [List.map_cons, List.mem_cons, not_or] at hq
    have ih := get?_writeAll_of_not_mem (t.write f.1 f.2) (fun g hg => hp g (List.mem_cons_of_mem f hg)) hq.2
    rw [get?_write t (hp f List.mem_cons_self), if_neg hq.1] at ih
    exact ih

theorem Tree.get?_writeAll_of_mem {f : Place × Text} : ∀ {fs : List (Place × Text)} (t : Tree),
    (∀ f ∈ fs, f.1 ≠ []) → (fs.map (·.1)).Nodup → f ∈ fs →
    (t.writeAll fs).get? f.1 = some (.file (Utf8.encode f.2))
  | g :: fs, t, hp, hn, hf => by
    have hp' : ∀ f ∈ fs, f.1 ≠ [] := fun h hh => hp h (List.mem_cons_of_mem g hh)
    rw [List.map_cons, List.nodup_cons] at hn
    rcases List.mem_cons.mp hf with rfl | hf
    · have h := get?_writeAll_of_not_mem (t.write f.1 f.2) hp' hn.1
      rw [get?_write t (hp f List.mem_cons_self), if_pos rfl] at h
      exact h
    · exact get?_writeAll_of_mem (t.write g.1 g.2) hp' hn.2 hf

namespace Mending.Run

open Project (Document readText LiesIn)

/-! ## Parts -/

def parts? (budget : Int) : Except Utf8.Fault Text → Option (List Part)
  | .ok x => partition? budget x
  | .error _ => none

/-- The files for the parts of a document, with what they hold. -/
def partFiles (budget : Int) (d : Document) : Except Utf8.Fault Text → List (Place × Text)
  | .ok x => ((partition? budget x).getD []).map fun q =>
      ((sibling d (partName d q)).place, partText (Header.ofText x) q)
  | .error _ => []

/-- What is reported of a document that is divided. -/
def division? (budget : Int) (d : Document) (x : Except Utf8.Fault Text) : Option Division :=
  (parts? budget x).map fun ps => ⟨d.name, ps.map (partName d)⟩

theorem writePart_eq_ok {d : Document} {h : Header} {s s' : Run} {q : Part} (hs : writePart d h s q = .ok s') :
    s' = { s with tree := s.tree.write (sibling d (partName d q)).place (partText h q) } := by
  unfold writePart at hs
  simp only at hs
  split at hs
  · cases hs
  · exact (Except.ok.inj hs).symm

theorem foldlM_writePart {d : Document} {h : Header} : ∀ {ps : List Part} {s s' : Run},
    ps.foldlM (writePart d h) s = .ok s' →
      s' = { s with
        tree := s.tree.writeAll (ps.map fun q => ((sibling d (partName d q)).place, partText h q)) }
  | [], s, s', hs => by
    rw [List.foldlM_nil] at hs
    exact (Except.ok.inj hs).symm
  | q :: ps, s, s', hs => by
    rw [List.foldlM_cons] at hs
    cases hq : writePart d h s q with
    | error e => rw [hq] at hs; cases hs
    | ok s₁ =>
      rw [hq] at hs
      rw [foldlM_writePart hs, writePart_eq_ok hq]
      rfl

/-- **A step of the second pass.** A document that cannot be read is reported, one that is not divided is
left alone, and any other gives way to its parts, unless on trial, and is named with them. -/
theorem divideOne_cases {trial : Bool} {budget : Int} {s s' : Run} {d : Document}
    (h : divideOne trial budget s d = .ok s') :
    (∃ f, readText s.tree d = .error f ∧ s' = s.skip d f) ∨
    (∃ x, readText s.tree d = .ok x ∧ partition? budget x = none ∧ s' = s) ∨
    ∃ x ps, readText s.tree d = .ok x ∧ partition? budget x = some ps ∧ s' = { s with
      tree := if trial then s.tree else (s.tree.writeAll (partFiles budget d (.ok x))).erase d.place
      done := { s.done with divisions := s.done.divisions ++ [⟨d.name, ps.map (partName d)⟩] } } := by
  unfold divideOne at h
  cases hr : readText s.tree d with
  | error f =>
    rw [hr] at h
    exact Or.inl ⟨f, rfl, (Except.ok.inj h).symm⟩
  | ok x =>
    rw [hr] at h
    simp only at h
    cases hp : partition? budget x with
    | none =>
      rw [hp] at h
      exact Or.inr (Or.inl ⟨x, rfl, hp, (Except.ok.inj h).symm⟩)
    | some ps =>
      rw [hp] at h
      refine Or.inr (Or.inr ⟨x, ps, rfl, hp, ?_⟩)
      cases trial with
      | true => exact (Except.ok.inj h).symm
      | false =>
        simp only [Bool.false_eq_true, ite_false, replaceByParts] at h
        cases hw : ps.foldlM (writePart d (Header.ofText x)) s with
        | error e => rw [hw] at h; cases h
        | ok s₁ =>
          rw [hw] at h
          rw [← Except.ok.inj h, foldlM_writePart hw]
          simp only [partFiles, hp, Option.getD_some, Bool.false_eq_true, ite_false]

/-- The files and the divisions after a step that writes. -/
theorem divideOne_eq_ok {budget : Int} {s s' : Run} {d : Document} (h : divideOne false budget s d = .ok s') :
    (parts? budget (readText s.tree d) = none ∧ s'.tree = s.tree ∧ s'.done.divisions = s.done.divisions) ∨
    ((parts? budget (readText s.tree d)).isSome = true ∧
      s'.tree = (s.tree.writeAll (partFiles budget d (readText s.tree d))).erase d.place ∧
      s'.done.divisions = s.done.divisions ++ (division? budget d (readText s.tree d)).toList) := by
  rcases divideOne_cases h with ⟨f, hr, rfl⟩ | ⟨x, hr, hp, rfl⟩ | ⟨x, ps, hr, hp, rfl⟩
  · rw [hr]
    exact Or.inl ⟨rfl, tree_skip s d f, divisions_skip s d f⟩
  · rw [hr]
    exact Or.inl ⟨hp, rfl, rfl⟩
  · rw [hr]
    exact Or.inr ⟨by rw [parts?, hp]; rfl, rfl, by rw [division?, parts?, hp]; rfl⟩

section
variable {budget : Int} {dir : Place} {d e : Document} {f : Place × Text} {x : Except Utf8.Fault Text}

theorem mem_partFiles (hd : LiesIn dir d) (hf : f ∈ partFiles budget d x) : ∃ q y, x = .ok y ∧
    q ∈ (partition? budget y).getD [] ∧ f = (dir ++ [partName d q], partText (Header.ofText y) q) := by
  cases x with
  | error f => cases hf
  | ok y =>
    obtain ⟨q, hq, rfl⟩ := List.mem_map.mp hf
    exact ⟨q, y, rfl, hq, by rw [place_sibling hd]⟩

theorem partFiles_of_none (h : parts? budget x = none) : partFiles budget d x = [] := by
  cases x with
  | error f => rfl
  | ok y =>
    have hy : partition? budget y = none := h
    rw [partFiles, hy]; rfl

theorem nodup_partFiles (hd : LiesIn dir d) (budget : Int) (x : Except Utf8.Fault Text) :
    ((partFiles budget d x).map (·.1)).Nodup := by
  cases x with
  | error f => exact List.nodup_nil
  | ok y =>
    have hnum : (((partition? budget y).getD []).map (·.number)).Nodup := by
      cases hp : partition? budget y with
      | none => exact List.nodup_nil
      | some ps =>
        rw [Option.getD_some, (partition?_eq_some_iff.mp hp).2.2, Partition.map_number_number]
        exact List.nodup_range'
    rw [partFiles, List.map_map]
    refine (List.Nodup.of_map _ hnum).map_on fun q hq r hr he => ?_
    simp only [Function.comp, place_sibling hd, List.append_cancel_left_eq, List.cons.injEq, and_true] at he
    exact List.inj_on_of_nodup_map hnum hq hr (partName_inj hd hd he).2

/-- The place of a part is not that of a document which does not come before. -/
theorem place_notMem_partFiles (hd : LiesIn dir d) (he : LiesIn dir e) (h : nameLe d.name e.name = true)
    (budget : Int) (x : Except Utf8.Fault Text) : e.place ∉ (partFiles budget d x).map (·.1) := by
  intro hm
  obtain ⟨f, hf, hp⟩ := List.mem_map.mp hm
  obtain ⟨q, y, -, -, rfl⟩ := mem_partFiles hd hf
  rw [he.place, List.append_cancel_left_eq, List.cons.injEq] at hp
  have hq := partName_before hd q
  rw [hp.1] at hq
  exact hq.2 (nameLe_antisymm hq.1 h)

theorem disjoint_partFiles (hd : LiesIn dir d) (he : LiesIn dir e) (hne : d.name ≠ e.name)
    {y : Except Utf8.Fault Text} (hf : f ∈ partFiles budget d x) :
    f.1 ∉ (partFiles budget e y).map (·.1) := by
  intro hm
  obtain ⟨g, hg, hp⟩ := List.mem_map.mp hm
  obtain ⟨q, _, -, -, rfl⟩ := mem_partFiles hd hf
  obtain ⟨r, _, -, -, rfl⟩ := mem_partFiles he hg
  simp only [List.append_cancel_left_eq, List.cons.injEq, and_true] at hp
  exact hne (partName_inj he hd hp).1.symm

theorem get?_divideOne {s s' : Run} (hd : LiesIn dir d) (h : divideOne false budget s d = .ok s') :
    (∀ f ∈ partFiles budget d (readText s.tree d), s'.tree.get? f.1 = some (.file (Utf8.encode f.2))) ∧
    (∀ q, q ∉ (partFiles budget d (readText s.tree d)).map (·.1) → s'.tree.get? q =
      if q = d.place ∧ (parts? budget (readText s.tree d)).isSome = true then none else s.tree.get? q) := by
  rcases divideOne_eq_ok h with ⟨hn, ht, -⟩ | ⟨hsome, ht, -⟩
  · rw [partFiles_of_none hn, ht, hn]
    simp
  · have hplaces : ∀ f ∈ partFiles budget d (readText s.tree d), f.1 ≠ [] := by
      intro f hf
      obtain ⟨q, y, -, -, rfl⟩ := mem_partFiles hd hf
      simp
    have hself := place_notMem_partFiles hd hd (by simpa using nameLe_total d.name d.name) budget (readText s.tree d)
    rw [ht]
    constructor
    · intro f hf
      have hne : f.1 ≠ d.place := fun hp => hself (hp ▸ List.mem_map_of_mem hf)
      rw [Tree.get?_erase _ hd.place_ne_nil, if_neg hne]
      exact Tree.get?_writeAll_of_mem _ hplaces (nodup_partFiles hd _ _) hf
    · intro q hq
      rw [Tree.get?_erase _ hd.place_ne_nil, Tree.get?_writeAll_of_not_mem _ hplaces hq, hsome]
      simp

end

/-! ## The whole pass -/

/-- The files for the parts of some documents, given what is read from each. -/
def allPartFiles (budget : Int) (read : Document → Except Utf8.Fault Text) (ds : List Document) :
    List (Place × Text) := ds.flatMap fun d => partFiles budget d (read d)

/-- What a tree has become of another one when some documents have been divided. -/
structure Divided (budget : Int) (read : Document → Except Utf8.Fault Text) (t u : Tree) (ds : List Document) :
    Prop where
  written : ∀ f ∈ allPartFiles budget read ds, u.get? f.1 = some (.file (Utf8.encode f.2))
  removed : ∀ d ∈ ds, (parts? budget (read d)).isSome = true →
    d.place ∉ (allPartFiles budget read ds).map (·.1) → u.get? d.place = none
  kept : ∀ q, q ∉ (allPartFiles budget read ds).map (·.1) →
    (∀ d ∈ ds, d.place = q → parts? budget (read d) = none) → u.get? q = t.get? q

section
variable {budget : Int} {dir : Place} {read : Document → Except Utf8.Fault Text} {ds : List Document}

theorem allPartFiles_congr (budget : Int) {read' : Document → Except Utf8.Fault Text} (h : ∀ d ∈ ds, read d = read' d) :
    allPartFiles budget read ds = allPartFiles budget read' ds := by
  unfold allPartFiles
  exact List.flatMap_congr fun d hd => by rw [h d hd]

theorem mem_places_allPartFiles {q : Place} : q ∈ (allPartFiles budget read ds).map (·.1) ↔
    ∃ d ∈ ds, q ∈ (partFiles budget d (read d)).map (·.1) := by
  simp only [allPartFiles, List.mem_map, List.mem_flatMap]
  constructor
  · rintro ⟨f, ⟨d, hd, hf⟩, rfl⟩; exact ⟨d, hd, f, hf, rfl⟩
  · rintro ⟨d, hd, f, hf, rfl⟩; exact ⟨f, ⟨d, hd, hf⟩, rfl⟩

/-- The documents that have been divided are not read anew under the name of a part. -/
theorem place_notMem_allPartFiles {e : Document} (hl : ∀ d ∈ ds, LiesIn dir d) (he : LiesIn dir e)
    (hs : ∀ d ∈ ds, nameLe d.name e.name = true) : e.place ∉ (allPartFiles budget read ds).map (·.1) := by
  rw [mem_places_allPartFiles]
  rintro ⟨d, hd, hm⟩
  exact place_notMem_partFiles (hl d hd) he (hs d hd) _ _ hm

theorem nodup_allPartFiles (hl : ∀ d ∈ ds, LiesIn dir d) (hn : ds.Pairwise fun d e => d.name ≠ e.name) :
    ((allPartFiles budget read ds).map (·.1)).Nodup := by
  induction ds with
  | nil => exact List.nodup_nil
  | cons d ds ih =>
    rw [List.pairwise_cons] at hn
    have hd := hl d List.mem_cons_self
    have hl' : ∀ e ∈ ds, LiesIn dir e := fun e he => hl e (List.mem_cons_of_mem d he)
    rw [allPartFiles, List.flatMap_cons, List.map_append, List.nodup_append]
    refine ⟨nodup_partFiles hd _ _, ih hl' hn.2, ?_⟩
    rintro a ha b hb rfl
    obtain ⟨f, hf, rfl⟩ := List.mem_map.mp ha
    obtain ⟨e, he, hm⟩ := mem_places_allPartFiles.mp hb
    exact disjoint_partFiles hd (hl' e he) (hn.1 e he) hf hm

theorem Divided.congr {read' : Document → Except Utf8.Fault Text} {t u : Tree} (h : ∀ d ∈ ds, read d = read' d)
    (hd : Divided budget read t u ds) : Divided budget read' t u ds := by
  have hfiles := allPartFiles_congr budget h
  refine ⟨?_, ?_, ?_⟩
  · rw [← hfiles]
    exact hd.written
  · intro d hm hsome hq
    rw [← h d hm] at hsome
    rw [← hfiles] at hq
    exact hd.removed d hm hsome hq
  · intro q hq hnone
    rw [← hfiles] at hq
    exact hd.kept q hq fun d hm hp => by rw [h d hm]; exact hnone d hm hp

section
variable {d : Document} {s s₁ : Run}

/-- What a later document holds is what it held before. -/
theorem readText_divideOne {e : Document} (hld : LiesIn dir d) (hle : LiesIn dir e)
    (hs : nameLe d.name e.name = true ∧ d.name ≠ e.name) (h : divideOne false budget s d = .ok s₁) :
    readText s₁.tree e = readText s.tree e := by
  apply Project.readText_congr
  rw [(get?_divideOne hld h).2 _ (place_notMem_partFiles hld hle hs.1 _ _), if_neg]
  rintro ⟨hp, -⟩
  exact hs.2 ((hld.place_eq_iff hle).mp hp.symm)

theorem divisions_divideOne (h : divideOne false budget s d = .ok s₁) :
    s₁.done.divisions = s.done.divisions ++ (division? budget d (readText s.tree d)).toList := by
  rcases divideOne_eq_ok h with ⟨hn, -, hdone⟩ | ⟨-, -, hdone⟩
  · rw [hdone, division?, hn]
    simp
  · exact hdone

/-- Dividing a document before later ones: its parts and its own place are left alone by them. -/
theorem Divided.cons {u : Tree} (hld : LiesIn dir d) (hl : ∀ e ∈ ds, LiesIn dir e)
    (hs : ∀ e ∈ ds, nameLe d.name e.name = true ∧ d.name ≠ e.name) (h : divideOne false budget s d = .ok s₁)
    (hrest : Divided budget (readText s.tree) s₁.tree u ds) :
    Divided budget (readText s.tree) s.tree u (d :: ds) := by
  obtain ⟨hwritten, hother⟩ := get?_divideOne hld h
  have hfiles : allPartFiles budget (readText s.tree) (d :: ds) =
      partFiles budget d (readText s.tree d) ++ allPartFiles budget (readText s.tree) ds := rfl
  refine ⟨?_, ?_, ?_⟩
  · intro f hf
    rw [hfiles, List.mem_append] at hf
    rcases hf with hf | hf
    · rw [hrest.kept, hwritten f hf]
      · rw [mem_places_allPartFiles]
        rintro ⟨e, he, hm⟩
        exact disjoint_partFiles hld (hl e he) (hs e he).2 hf hm
      · intro e he hp
        have hplace := place_notMem_partFiles hld (hl e he) (hs e he).1 budget (readText s.tree d)
        rw [hp] at hplace
        exact absurd (List.mem_map_of_mem hf) hplace
    · exact hrest.written f hf
  · intro e he hsome hq
    rw [hfiles, List.map_append, List.mem_append, not_or] at hq
    rcases List.mem_cons.mp he with rfl | he
    · rw [hrest.kept _ hq.2, hother _ hq.1, if_pos ⟨rfl, hsome⟩]
      intro g hg hp
      exact absurd ((hld.place_eq_iff (hl g hg)).mp hp.symm) (hs g hg).2
    · exact hrest.removed e he hsome hq.2
  · intro q hq hnone
    rw [hfiles, List.map_append, List.mem_append, not_or] at hq
    rw [hrest.kept q hq.2 fun e he => hnone e (List.mem_cons_of_mem d he), hother q hq.1, if_neg]
    rintro ⟨hp, hsome⟩
    rw [hnone d List.mem_cons_self hp.symm] at hsome
    cases hsome

end

theorem divideAll_cons_eq_ok {trial : Bool} {s s' : Run} {d : Document} : divideAll trial budget s (d :: ds) = .ok s' ↔
    ∃ s₁, divideOne trial budget s d = .ok s₁ ∧ divideAll trial budget s₁ ds = .ok s' := by
  have hcons : divideAll trial budget s (d :: ds) =
      divideOne trial budget s d >>= fun s₁ => divideAll trial budget s₁ ds := List.foldlM_cons
  rw [hcons]
  cases divideOne trial budget s d with
  | error e =>
    constructor
    · intro h; cases h
    · rintro ⟨_, h, -⟩; cases h
  | ok s₁ =>
    constructor
    · exact fun h => ⟨s₁, rfl, h⟩
    · rintro ⟨_, h₁, h⟩
      rw [Except.ok.inj h₁]; exact h

/-- **The second pass.** It goes over documents in the order of their names. -/
theorem divided_divideAll : ∀ {ds : List Document} {s s' : Run}, (∀ d ∈ ds, LiesIn dir d) →
    (ds.Pairwise fun d e => nameLe d.name e.name = true ∧ d.name ≠ e.name) →
    divideAll false budget s ds = .ok s' →
      Divided budget (readText s.tree) s.tree s'.tree ds ∧
      s'.done.divisions = s.done.divisions ++ ds.filterMap fun d => division? budget d (readText s.tree d)
  | [], s, s', _, _, h => by
    have hs : s = s' := Except.ok.inj h
    rw [← hs]
    exact ⟨⟨by simp [allPartFiles], by simp, fun _ _ _ => rfl⟩, by simp⟩
  | d :: ds, s, s', hl, hs, h => by
    obtain ⟨s₁, hd, h⟩ := divideAll_cons_eq_ok.mp h
    rw [List.pairwise_cons] at hs
    have hld := hl d List.mem_cons_self
    have hl' : ∀ e ∈ ds, LiesIn dir e := fun e he => hl e (List.mem_cons_of_mem d he)
    obtain ⟨hrest, hdivs⟩ := divided_divideAll hl' hs.2 h
    have hread : ∀ e ∈ ds, readText s₁.tree e = readText s.tree e := fun e he =>
      readText_divideOne hld (hl' e he) (hs.1 e he) hd
    refine ⟨(hrest.congr hread).cons hld hl' hs.1 hd, ?_⟩
    have hlater : (ds.filterMap fun e => division? budget e (readText s₁.tree e)) =
        ds.filterMap fun e => division? budget e (readText s.tree e) :=
      List.filterMap_congr fun e he => by rw [hread e he]
    rw [hdivs, divisions_divideOne hd, hlater, List.append_assoc, List.filterMap_cons]
    cases division? budget d (readText s.tree d) <;> rfl

end

end Mending.Run
end AgentRules
