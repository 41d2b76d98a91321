import Mathlib
import AgentRules.Proofs.Mending.SecondPass

/-!
# What mending leaves behind

Every place of the tree after a run is known from the tree before it: the place of a part holds the
part, the place of a divided document nothing, the place of any other document its repaired text,
and every other place what it held. Main statement: `run_settles`.
-/

namespace AgentRules.Mending

open Project (Document readText LiesIn)
open Run (parts? mended? allPartFiles division? partName)

/-! ## What is to be done -/

/-- The text of a document with its header repaired. -/
def repairedText (t : Tree) (d : Document) : Except Utf8.Fault Text := (readText t d).map Header.repair

def plan? (o : MendOptions) (t : Tree) (d : Document) : Option (List Part) :=
  if o.divide then parts? o.budget (repairedText t d) else none

/-- The files for the parts of all documents, with what they hold. -/
def newFiles (o : MendOptions) (t : Tree) (p : Project) : List (Place × Text) :=
  if o.divide then allPartFiles o.budget (repairedText t) (p.modernDocuments t) else []

def newPlaces (o : MendOptions) (t : Tree) (p : Project) : List Place := (newFiles o t p).map (·.1)

/-- **What a tree has become** of another one when its documents have been mended. -/
structure Settled (o : MendOptions) (t : Tree) (p : Project) (u : Tree) : Prop where
  part : ∀ f ∈ newFiles o t p, u.get? f.1 = some (.file (Utf8.encode f.2))
  divided : ∀ d ∈ p.modernDocuments t, (plan? o t d).isSome = true → d.place ∉ newPlaces o t p →
    u.get? d.place = none
  repaired : ∀ d ∈ p.modernDocuments t, plan? o t d = none → d.place ∉ newPlaces o t p →
    ∀ x, mended? t d = some x → u.get? d.place = some (.file (Utf8.encode x))
  kept : ∀ q, q ∉ newPlaces o t p →
    (∀ d ∈ p.modernDocuments t, d.place = q → plan? o t d = none ∧ mended? t d = none) → u.get? q = t.get? q

/-! ## Runs -/

section
variable {o : MendOptions} {t u : Tree} {p : Project} {r : Run}

theorem foldl_readOne (p : Project) (ds : List Document) : ∀ s : Run × List Rule,
    (ds.foldl (Run.readOne p) s).1.tree = s.1.tree ∧
      (ds.foldl (Run.readOne p) s).1.done.divisions = s.1.done.divisions ∧
      (ds.foldl (Run.readOne p) s).1.done.repaired = s.1.done.repaired := by
  induction ds with
  | nil => exact fun _ => ⟨rfl, rfl, rfl⟩
  | cons d ds ih =>
    intro s
    have hstep : (Run.readOne p s d).1.tree = s.1.tree ∧
        (Run.readOne p s d).1.done.divisions = s.1.done.divisions ∧
        (Run.readOne p s d).1.done.repaired = s.1.done.repaired := by
      unfold Run.readOne
      split
      · exact ⟨Run.tree_skip _ _ _, Run.divisions_skip _ _ _, Run.repaired_skip _ _ _⟩
      · exact ⟨rfl, rfl, rfl⟩
    rw [List.foldl_cons, (ih _).1, (ih _).2.1, (ih _).2.2]
    exact hstep

theorem tree_compare (s : Run) (p : Project) : (s.compare p).tree = s.tree :=
  (foldl_readOne p _ _).1

theorem divisions_compare (s : Run) (p : Project) : (s.compare p).done.divisions = s.done.divisions :=
  (foldl_readOne p _ _).2.1

theorem repaired_compare (s : Run) (p : Project) : (s.compare p).done.repaired = s.done.repaired :=
  (foldl_readOne p _ _).2.2

/-- The run before the second pass. -/
def afterFirst (t : Tree) (p : Project) : Run := Run.repairAll false { tree := t } (p.modernDocuments t)

theorem repaired_afterFirst (t : Tree) (p : Project) : Run.Repaired t (afterFirst t p).tree (p.modernDocuments t) :=
  Run.repaired_repairAll (s := { tree := t }) (fun _ hd => Project.isFile_of_mem hd) (Project.places_pairwise t p)

theorem modernDocuments_afterFirst (t : Tree) (p : Project) :
    p.modernDocuments (afterFirst t p).tree = p.modernDocuments t :=
  Project.modernDocuments_eq_of_sameShape (repaired_afterFirst t p).shape p

theorem eq_of_place_eq {d e : Document} (hd : d ∈ p.modernDocuments t) (he : e ∈ p.modernDocuments t)
    (h : e.place = d.place) : e = d := by
  cases hr : p.rulesPlace? t with
  | none => rw [Project.modernDocuments_of_none hr] at hd; cases hd
  | some dir =>
    obtain ⟨m, -, -, rfl⟩ := (Project.mem_modernDocuments hr).mp hd
    obtain ⟨n, -, -, rfl⟩ := (Project.mem_modernDocuments hr).mp he
    simp only [Project.ruleDocument, List.append_cancel_left_eq, List.cons.injEq, and_true] at h
    rw [h]

theorem readText_afterFirst {d : Document} (hd : d ∈ p.modernDocuments t) :
    readText (afterFirst t p).tree d = repairedText t d :=
  (repaired_afterFirst t p).readText hd fun _ he hp => eq_of_place_eq hd he hp

/-- The run before its documents are compared. -/
def passes (o : MendOptions) (t : Tree) (p : Project) : Except Run.Stopped Run :=
  if o.divide then Run.divideAll false o.budget (afterFirst t p) (p.modernDocuments t) else .ok (afterFirst t p)

theorem run_eq (ho : o.trial = false) {dir : Place} (hr : p.rulesPlace? t = some dir) :
    run o t p = (passes o t p).map (·.compare p) := by
  rw [passes, ← modernDocuments_afterFirst]
  simp only [run, hr, ho]
  rfl

theorem exists_run (ho : o.trial = false) {dir : Place} (hr : p.rulesPlace? t = some dir)
    (h : (passes o t p).isOk = true) : ∃ r, run o t p = .ok r := by
  cases hs : passes o t p with
  | error e => rw [hs] at h; cases h
  | ok s => exact ⟨s.compare p, by rw [run_eq ho hr, hs]; rfl⟩

theorem passes_of_run (ho : o.trial = false) (h : run o t p = .ok r) :
    ∃ s, passes o t p = .ok s ∧ r.tree = s.tree ∧ r.done.divisions = s.done.divisions := by
  cases hr : p.rulesPlace? t with
  | none =>
    simp only [run, hr] at h
    rw [← Except.ok.inj h]
    refine ⟨{ tree := t }, ?_, rfl, rfl⟩
    rw [passes, afterFirst, Project.modernDocuments_of_none hr]
    split <;> rfl
  | some dir =>
    rw [run_eq ho hr] at h
    cases hs : passes o t p with
    | error e => rw [hs] at h; cases h
    | ok s =>
      rw [hs] at h
      rw [← Except.ok.inj h]
      exact ⟨s, rfl, tree_compare s p, divisions_compare s p⟩

theorem exists_directory (t : Tree) (p : Project) : ∃ dir, ∀ d ∈ p.modernDocuments t, LiesIn dir d := by
  cases h : p.rulesPlace? t with
  | none => exact ⟨[], by simp [Project.modernDocuments_of_none h]⟩
  | some dir => exact ⟨dir, fun _ hd => Project.liesIn_of_mem h hd⟩

theorem nodup_newPlaces (o : MendOptions) (t : Tree) (p : Project) : (newPlaces o t p).Nodup := by
  obtain ⟨dir, hdir⟩ := exists_directory t p
  unfold newPlaces newFiles
  split
  · exact Run.nodup_allPartFiles hdir ((Project.modernDocuments_pairwise t p).imp And.right)
  · exact List.nodup_nil

/-- The documents of the first pass, up to any one of them, in the second pass. -/
theorem divided_of_append {ds es : List Document} (hds : p.modernDocuments t = ds ++ es) {s : Run}
    (h : Run.divideAll false o.budget (afterFirst t p) ds = .ok s) :
    Run.Divided o.budget (repairedText t) (afterFirst t p).tree s.tree ds ∧
      s.done.divisions = ds.filterMap fun d => division? o.budget d (repairedText t d) := by
  obtain ⟨dir, hdir⟩ := exists_directory t p
  have hsub : ds.Sublist (p.modernDocuments t) := by rw [hds]; exact List.sublist_append_left ds es
  have hread : ∀ d ∈ ds, readText (afterFirst t p).tree d = repairedText t d := fun d hd =>
    readText_afterFirst (hsub.subset hd)
  obtain ⟨hd, hdivs⟩ := Run.divided_divideAll (fun d hm => hdir d (hsub.subset hm))
    ((Project.modernDocuments_pairwise t p).sublist hsub) h
  have hfirst : (afterFirst t p).done.divisions = [] := Run.divisions_repairAll false _ _
  refine ⟨hd.congr hread, ?_⟩
  rw [hdivs, hfirst, List.nil_append]
  exact List.filterMap_congr fun d hm => by rw [hread d hm]

/-- Without division the first pass is all there is. -/
theorem settled_of_repaired (hdiv : o.divide = false) (h : Run.Repaired t u (p.modernDocuments t)) : Settled o t p u := by
  have hplan : ∀ d, plan? o t d = none := fun d => if_neg (by rw [hdiv]; decide)
  have hnew : newFiles o t p = [] := if_neg (by rw [hdiv]; decide)
  refine ⟨?_, ?_, ?_, ?_⟩
  · rw [hnew]
    exact fun f hf => absurd hf List.not_mem_nil
  · intro d _ hsome
    rw [hplan] at hsome
    cases hsome
  · intro d hm _ _ x hx
    exact h.written d hm x hx
  · intro q _ hall
    exact h.kept q fun d hm hp => (hall d hm hp).2

theorem settled_of_divided (hdiv : o.divide = true) (h : Run.Repaired t u (p.modernDocuments t)) {v : Tree}
    (hd : Run.Divided o.budget (repairedText t) u v (p.modernDocuments t)) : Settled o t p v := by
  have hplan : ∀ d, plan? o t d = parts? o.budget (repairedText t d) := fun d => if_pos hdiv
  have hnew : newFiles o t p = allPartFiles o.budget (repairedText t) (p.modernDocuments t) := if_pos hdiv
  refine ⟨?_, ?_, ?_, ?_⟩
  · rw [hnew]
    exact hd.written
  · intro d hm hsome hq
    rw [hplan] at hsome
    rw [newPlaces, hnew] at hq
    exact hd.removed d hm hsome hq
  · intro d hm hnone hq x hx
    rw [newPlaces, hnew] at hq
    rw [hd.kept _ hq, h.written d hm x hx]
    intro e he hp
    rw [eq_of_place_eq hm he hp, ← hplan]
    exact hnone
  · intro q hq hall
    rw [newPlaces, hnew] at hq
    rw [hd.kept q hq, h.kept q fun d hm hp => (hall d hm hp).2]
    intro d hm hp
    rw [← hplan]
    exact (hall d hm hp).1

theorem settled_of_run (ho : o.trial = false) (h : run o t p = .ok r) : Settled o t p r.tree := by
  obtain ⟨s, hs, htree, -⟩ := passes_of_run ho h
  have hfirst := repaired_afterFirst t p
  unfold passes at hs
  rw [htree]
  split at hs
  · next hdiv => exact settled_of_divided hdiv hfirst (divided_of_append (List.append_nil _).symm hs).1
  · next hdiv =>
    rw [← Except.ok.inj hs]
    exact settled_of_repaired (Bool.eq_false_iff.mpr hdiv) hfirst

/-- The second pass reads every document as the first pass has left it. -/
theorem reads_own_text {ds es : List Document} {d : Document} (hds : p.modernDocuments t = ds ++ d :: es) {u : Run}
    (h : Run.divideAll false o.budget (afterFirst t p) (p.modernDocuments t) = .ok u) :
    ∃ s, Run.divideAll false o.budget (afterFirst t p) ds = .ok s ∧ readText s.tree d = repairedText t d := by
  have hfold : Run.divideAll false o.budget (afterFirst t p) (p.modernDocuments t) =
      Run.divideAll false o.budget (afterFirst t p) ds >>= fun s => Run.divideAll false o.budget s (d :: es) := by
    rw [hds]; exact List.foldlM_append
  cases hs : Run.divideAll false o.budget (afterFirst t p) ds with
  | error e => rw [hfold, hs] at h; cases h
  | ok s =>
    refine ⟨s, rfl, ?_⟩
    obtain ⟨dir, hdir⟩ := exists_directory t p
    have hmem : ∀ e ∈ ds ++ [d], e ∈ p.modernDocuments t := by
      intro e he
      rw [hds]
      simp only [List.mem_append, List.mem_cons, List.not_mem_nil, or_false] at he ⊢
      tauto
    have hbefore : ∀ e ∈ ds, nameLe e.name d.name = true ∧ e.name ≠ d.name := by
      have hsorted := Project.modernDocuments_pairwise t p
      rw [hds, List.pairwise_append] at hsorted
      exact fun e he => hsorted.2.2 e he d List.mem_cons_self
    obtain ⟨hd, -⟩ := divided_of_append hds hs
    have hld := hdir d (hmem d (by simp))
    rw [← readText_afterFirst (hmem d (by simp))]
    refine Project.readText_congr (hd.kept _ ?_ ?_)
    · exact Run.place_notMem_allPartFiles (fun e he => hdir e (hmem e (by simp [he]))) hld
        fun e he => (hbefore e he).1
    · intro e he hp
      exact absurd ((hdir e (hmem e (by simp [he]))).place_eq_iff hld |>.mp hp) (hbefore e he).2

/-- **What mending leaves behind.** With the places of all parts different from each other, the tree
after a run is known place by place, and the divided documents are reported in the order of their
names. The second pass goes over the documents there were and reads each of them as the first pass
has left it, never a part. -/
theorem run_settles (ho : o.trial = false) (hd : o.divide = true) (h : run o t p = .ok r) :
    Settled o t p r.tree ∧ (newPlaces o t p).Nodup ∧
    (p.modernDocuments t).Pairwise (fun d e => nameLe d.name e.name = true ∧ d.name ≠ e.name) ∧
    r.done.divisions = (p.modernDocuments t).filterMap (fun d =>
      (plan? o t d).map fun ps => ⟨d.name, ps.map (partName d)⟩) ∧
    p.modernDocuments (afterFirst t p).tree = p.modernDocuments t ∧
    ∀ ds d es, p.modernDocuments t = ds ++ d :: es → ∃ s,
      Run.divideAll false o.budget (afterFirst t p) ds = .ok s ∧ readText s.tree d = repairedText t d := by
  obtain ⟨u, hu, -, hdone⟩ := passes_of_run ho h
  rw [passes, if_pos hd] at hu
  refine ⟨settled_of_run ho h, nodup_newPlaces o t p, Project.modernDocuments_pairwise t p, ?_,
    modernDocuments_afterFirst t p, fun ds d es hds => reads_own_text hds hu⟩
  rw [hdone, (divided_of_append (List.append_nil _).symm hu).2]
  exact List.filterMap_congr fun d _ => by rw [plan?, if_pos hd]; rfl

end

/-! ## A name that clashes -/

def here : Project := ⟨⟨.here, []⟩, some []⟩

theorem exists_run_here (budget : Int) {t : Tree} {ds : List Document}
    (hr : here.rulesPlace? t = some Project.rulesNames) (hds : here.modernDocuments t = ds)
    (h : (Run.divideAll false budget (Run.repairAll false { tree := t } ds) ds).isOk = true) :
    ∃ r, run { budget := budget } t here = .ok r := by
  refine exists_run (o := { budget := budget }) rfl hr ?_
  rw [passes, afterFirst, hds]
  exact h

/-- A rules directory with two documents, the first of them named like the first part of the second. -/
def clashing (a b : String) : Tree :=
  (Tree.empty.plant [".cursor", "rules", "x-part1.mdc"] (.file (Utf8.encode a.toList))).plant
    [".cursor", "rules", "x.mdc"] (.file (Utf8.encode b.toList))

def clashingDocuments : List Document := ["x-part1.mdc", "x.mdc"].map (here.ruleDocument Project.rulesNames)

section
variable (budget : Int) (a b : String)

theorem modernDocuments_clashing : here.modernDocuments (clashing a b) = clashingDocuments := by
  unfold clashing
  generalize Utf8.encode a.toList = m
  generalize Utf8.encode b.toList = n
  cbv

theorem newFiles_clashing : newFiles { budget := budget } (clashing a b) here =
    allPartFiles budget (repairedText (clashing a b)) clashingDocuments := by
  rw [← modernDocuments_clashing a b]; rfl

theorem exists_run_clashing
    (h : (Run.divideAll false budget (Run.repairAll false { tree := clashing a b } clashingDocuments)
      clashingDocuments).isOk = true) : ∃ r, run { budget := budget } (clashing a b) here = .ok r :=
  exists_run_here budget rfl (modernDocuments_clashing a b) h

end

/-- Two documents that are both divided: the first part of the second stays under the name of the
first, which is gone, and is not divided again. -/
theorem chained_names_settle : ∃ r,
    run { budget := 1 } (clashing "---\na: b\n---\nc\n\nd" "---\na: b\n---\ne\n\nf") here = .ok r ∧
    r.tree.get? [".cursor", "rules", "x-part1.mdc"] = some (.file (Utf8.encode "---\na: b\n---\ne".toList)) ∧
    r.tree.get? [".cursor", "rules", "x-part1-part1.mdc"] = some (.file (Utf8.encode "---\na: b\n---\nc".toList)) ∧
    r.tree.get? [".cursor", "rules", "x.mdc"] = none := by
  obtain ⟨r, hrun⟩ := exists_run_clashing 1 "---\na: b\n---\nc\n\nd" "---\na: b\n---\ne\n\nf" (by decide)
  have hsettled := (run_settles rfl rfl hrun).1
  refine ⟨r, hrun, ?_, ?_, ?_⟩
  · refine hsettled.part ([".cursor", "rules", "x-part1.mdc"], "---\na: b\n---\ne".toList) ?_
    rw [newFiles_clashing]; decide
  · refine hsettled.part ([".cursor", "rules", "x-part1-part1.mdc"], "---\na: b\n---\nc".toList) ?_
    rw [newFiles_clashing]; decide
  · refine hsettled.divided (here.ruleDocument Project.rulesNames "x.mdc") ?_ (by decide) ?_
    · rw [modernDocuments_clashing]; decide
    · rw [newPlaces, newFiles_clashing]; decide

end AgentRules.Mending
