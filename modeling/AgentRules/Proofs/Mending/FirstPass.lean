import Mathlib
import AgentRules.Mending
import AgentRules.Proofs.Header.Repair
import AgentRules.Proofs.Project

/-!
# The first pass of mending

Every document is read and written at its own place, so no step changes what a later one reads. What
is written is read back as it is. Main statement: `repaired_repairAll`.
-/

namespace AgentRules

namespace Mending.Run

open Project (Document readText LiesIn)

/-! ## Notes -/

section
variable (s : Run) (d : Document) (f : Utf8.Fault)

@[simp] theorem tree_note (e : Event) : (s.note e).tree = s.tree := rfl

@[simp] theorem done_note (e : Event) : (s.note e).done = s.done := rfl

@[simp] theorem tree_skip : (s.skip d f).tree = s.tree := by
  unfold skip
  simp only [tree_note]
  split <;> rfl

@[simp] theorem repaired_skip : (s.skip d f).done.repaired = s.done.repaired := by
  unfold skip
  simp only [done_note]
  split <;> rfl

@[simp] theorem divisions_skip : (s.skip d f).done.divisions = s.done.divisions := by
  unfold skip
  simp only [done_note]
  split <;> rfl

end

/-! ## Headers -/

/-- What is written for a document whose header is repaired, if repair changes it. -/
def mended? (t : Tree) (d : Document) : Option Text :=
  match readText t d with
  | .ok x => if Header.repair x = x then none else some (Header.repair x)
  | .error _ => none

theorem mended?_congr {t u : Tree} {d : Document} (h : t.get? d.place = u.get? d.place) :
    mended? t d = mended? u d := by
  rw [mended?, mended?, Project.readText_congr h]

theorem return_not_mem_mended? {t : Tree} {d : Document} {x : Text} (h : mended? t d = some x) : '\r' ∉ x := by
  unfold mended? at h
  split at h
  · next y hy =>
    rw [Option.ite_none_left_eq_some] at h
    rw [← Option.some.inj h.2]
    exact Header.return_not_mem_repair (Project.return_not_mem_of_readText hy)
  · cases h

theorem map_repair_of_mended? {t : Tree} {d : Document} {x : Text} (h : mended? t d = some x) :
    (readText t d).map Header.repair = .ok x := by
  unfold mended? at h
  split at h
  · next y hy =>
    rw [Option.ite_none_left_eq_some] at h
    rw [hy, ← Option.some.inj h.2]; rfl
  · cases h

theorem map_repair_of_not_mended? {t : Tree} {d : Document} (h : mended? t d = none) :
    (readText t d).map Header.repair = readText t d := by
  unfold mended? at h
  split at h
  · next y hy =>
    rw [ite_eq_left_iff] at h
    have hy' : Header.repair y = y := by_contra fun hne => nomatch h hne
    rw [hy, Except.map, hy']
  · next f hf => rw [hf]; rfl

/-- **A step of the first pass.** A document that cannot be read is reported, one that is not changed by
repair is left alone, and any other is written, unless on trial, and named. -/
theorem repairOne_cases (trial : Bool) (s : Run) (d : Document) :
    (∃ f, readText s.tree d = .error f ∧ repairOne trial s d = s.skip d f) ∨
    (∃ x, readText s.tree d = .ok x ∧ Header.repair x = x ∧ repairOne trial s d = s) ∨
    ∃ x, readText s.tree d = .ok x ∧ Header.repair x ≠ x ∧ repairOne trial s d = { s with
      tree := if trial then s.tree else s.tree.write d.place (Header.repair x)
      done := { s.done with repaired := s.done.repaired ++ [d.name] }
      events := s.events ++ [.repaired d.path] } := by
  unfold repairOne
  cases readText s.tree d with
  | error f => exact Or.inl ⟨f, rfl, rfl⟩
  | ok x =>
    by_cases hx : Header.repair x = x
    · exact Or.inr (Or.inl ⟨x, rfl, hx, if_pos hx⟩)
    · refine Or.inr (Or.inr ⟨x, rfl, hx, (if_neg hx).trans ?_⟩)
      cases trial <;> rfl

/-- The files after a step of the first pass. -/
theorem tree_repairOne (s : Run) (d : Document) : (repairOne false s d).tree =
    match mended? s.tree d with
    | some x => s.tree.write d.place x
    | none => s.tree := by
  rcases repairOne_cases false s d with ⟨f, hr, he⟩ | ⟨x, hr, hx, he⟩ | ⟨x, hr, hx, he⟩
  · rw [he, mended?, hr]
    exact tree_skip s d f
  · simp [he, mended?, hr, hx]
  · simp [he, mended?, hr, hx]

theorem divisions_repairOne (trial : Bool) (s : Run) (d : Document) :
    (repairOne trial s d).done.divisions = s.done.divisions := by
  rcases repairOne_cases trial s d with ⟨f, -, he⟩ | ⟨x, -, -, he⟩ | ⟨x, -, -, he⟩
  · rw [he, divisions_skip]
  · rw [he]
  · rw [he]

/-- What a tree has become of another one when the headers of some documents have been repaired. -/
structure Repaired (t u : Tree) (ds : List Document) : Prop where
  shape : Tree.SameShape u t
  written : ∀ d ∈ ds, ∀ x, mended? t d = some x → u.get? d.place = some (.file (Utf8.encode x))
  kept : ∀ q, (∀ d ∈ ds, d.place = q → mended? t d = none) → u.get? q = t.get? q

theorem Repaired.readText {t u : Tree} {ds : List Document} (h : Repaired t u ds) {d : Document} (hd : d ∈ ds)
    (hn : ∀ e ∈ ds, e.place = d.place → e = d) :
    Project.readText u d = (Project.readText t d).map Header.repair := by
  cases hm : mended? t d with
  | some x =>
    rw [Project.readText_of_written (h.written d hd x hm) (return_not_mem_mended? hm), map_repair_of_mended? hm]
  | none =>
    rw [Project.readText_congr (h.kept d.place fun e he hp => by rw [hn e he hp]; exact hm),
      map_repair_of_not_mended? hm]

section
variable {s : Run} {d : Document}

theorem get?_repairOne_self (hd : d.place ≠ []) {x : Text} (hx : mended? s.tree d = some x) :
    (repairOne false s d).tree.get? d.place = some (.file (Utf8.encode x)) := by
  rw [tree_repairOne, hx]
  simp only
  rw [Tree.get?_write _ hd, if_pos rfl]

/-- A step changes nothing but the place of its document. -/
theorem get?_repairOne_of_ne (hd : d.place ≠ []) {q : Place} (hq : q ≠ d.place) :
    (repairOne false s d).tree.get? q = s.tree.get? q := by
  rw [tree_repairOne]
  cases mended? s.tree d with
  | none => rfl
  | some x => rw [Tree.get?_write _ hd, if_neg hq]

theorem sameShape_repairOne (hd : d.place ≠ []) (hf : s.tree.isFile d.place = true) :
    Tree.SameShape (repairOne false s d).tree s.tree := by
  rw [tree_repairOne]
  cases mended? s.tree d with
  | none => exact Tree.SameShape.refl _
  | some x => exact Tree.sameShape_write hd hf x

end

theorem repaired_repairAll {ds : List Document} : ∀ {s : Run}, (∀ d ∈ ds, s.tree.isFile d.place = true) →
    ds.Pairwise (fun d e => d.place ≠ e.place) → Repaired s.tree (repairAll false s ds).tree ds := by
  induction ds with
  | nil => intro s _ _; exact ⟨Tree.SameShape.refl _, by simp, fun _ _ => rfl⟩
  | cons d ds ih =>
    intro s hf hn
    rw [List.pairwise_cons] at hn
    have hfile := hf d List.mem_cons_self
    have hne : d.place ≠ [] := by
      intro h
      simp [Tree.isFile, h] at hfile
    have hshape := sameShape_repairOne hne hfile
    have hrest := ih (s := repairOne false s d)
      (fun e he => by rw [hshape.file]; exact hf e (List.mem_cons_of_mem d he)) hn.2
    have hmended : ∀ e ∈ ds, mended? (repairOne false s d).tree e = mended? s.tree e := fun e he =>
      mended?_congr (get?_repairOne_of_ne hne (Ne.symm (hn.1 e he)))
    have hall : repairAll false s (d :: ds) = repairAll false (repairOne false s d) ds := rfl
    rw [hall]
    refine ⟨hrest.shape.trans hshape, ?_, ?_⟩
    · intro e he x hx
      rcases List.mem_cons.mp he with rfl | he
      · rw [hrest.kept _ fun g hg hp => absurd hp.symm (hn.1 g hg)]
        exact get?_repairOne_self hne hx
      · exact hrest.written e he x (by rw [hmended e he]; exact hx)
    · intro q hq
      rw [hrest.kept q fun e he hp => by rw [hmended e he]; exact hq e (List.mem_cons_of_mem d he) hp]
      by_cases hd : q = d.place
      · rw [tree_repairOne, hq d List.mem_cons_self hd.symm]
      · exact get?_repairOne_of_ne hne hd

theorem divisions_repairAll (trial : Bool) (ds : List Document) : ∀ s : Run,
    (repairAll trial s ds).done.divisions = s.done.divisions := by
  induction ds with
  | nil => exact fun _ => rfl
  | cons d ds ih =>
    intro s
    exact (ih (repairOne trial s d)).trans (divisions_repairOne trial s d)

end Mending.Run
end AgentRules
