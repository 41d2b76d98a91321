import Mathlib
import AgentRules.Proofs.Mending.Outcome

/-!
# Trials

A trial goes through the same passes as a run that writes, and writes nothing. So its second pass
reads every document as it was before the first one. Main statement: `trial_predicts_iff`, by which
a trial foretells the repaired documents always, and the divisions if no repair takes a document that
can be divided over the budget or below it.
-/

namespace AgentRules.Mending

open Project (Document readText LiesIn)

namespace Run

/-! ## The first pass -/

/-- The names of the documents whose headers are to be repaired. -/
def mendedNames (t : Tree) (ds : List Document) : List String :=
  (ds.filter fun d => (mended? t d).isSome).map Document.name

section
variable (s : Run) (d : Document)

theorem tree_repairOne_trial : (repairOne true s d).tree = s.tree := by
  rcases repairOne_cases true s d with ⟨f, -, he⟩ | ⟨x, -, -, he⟩ | ⟨x, -, -, he⟩
  · rw [he, tree_skip]
  · rw [he]
  · rw [he]; rfl

theorem repaired_repairOne (trial : Bool) :
    (repairOne trial s d).done.repaired = s.done.repaired ++ mendedNames s.tree [d] := by
  unfold mendedNames mended?
  rcases repairOne_cases trial s d with ⟨f, hr, he⟩ | ⟨x, hr, hx, he⟩ | ⟨x, hr, hx, he⟩
  · simp [he, hr]
  · simp [he, hr, hx]
  · simp [he, hr, hx]

end

theorem tree_repairAll_trial (ds : List Document) : ∀ s : Run, (repairAll true s ds).tree = s.tree := by
  induction ds with
  | nil => exact fun _ => rfl
  | cons d ds ih =>
    intro s
    exact (ih (repairOne true s d)).trans (tree_repairOne_trial s d)

/-- A step is not seen by later ones, whether it writes or not. -/
theorem get?_repairOne (trial : Bool) {s : Run} {d : Document} (hd : d.place ≠ []) {q : Place} (hq : q ≠ d.place) :
    (repairOne trial s d).tree.get? q = s.tree.get? q := by
  cases trial with
  | true => rw [tree_repairOne_trial]
  | false => exact get?_repairOne_of_ne hd hq

theorem mended?_repairOne (trial : Bool) {s : Run} {d e : Document} (hd : d.place ≠ []) (he : e.place ≠ d.place) :
    mended? (repairOne trial s d).tree e = mended? s.tree e := mended?_congr (get?_repairOne trial hd he)

theorem repaired_names_repairAll (trial : Bool) {ds : List Document} : ∀ {s : Run}, (∀ d ∈ ds, d.place ≠ []) →
    ds.Pairwise (fun d e => d.place ≠ e.place) →
    (repairAll trial s ds).done.repaired = s.done.repaired ++ mendedNames s.tree ds := by
  induction ds with
  | nil =>
    intro s _ _
    exact (List.append_nil _).symm
  | cons d ds ih =>
    intro s hp hn
    rw [List.pairwise_cons] at hn
    have hrest := ih (s := repairOne trial s d) (fun e he => hp e (List.mem_cons_of_mem d he)) hn.2
    have hsame : mendedNames (repairOne trial s d).tree ds = mendedNames s.tree ds := by
      unfold mendedNames
      congr 1
      exact List.filter_congr fun e he => by
        rw [mended?_repairOne trial (hp d List.mem_cons_self) (Ne.symm (hn.1 e he))]
    have hcons : mendedNames s.tree (d :: ds) = mendedNames s.tree [d] ++ mendedNames s.tree ds := by
      unfold mendedNames
      rw [← List.map_append, ← List.filter_append]; rfl
    have hall : repairAll trial s (d :: ds) = repairAll trial (repairOne trial s d) ds := rfl
    rw [hall, hrest, hsame, repaired_repairOne, hcons, List.append_assoc]

/-! ## The second pass -/

section
variable {budget : Int} {s s' : Run} {d : Document} {ds : List Document}

theorem repaired_divideOne {trial : Bool} (h : divideOne trial budget s d = .ok s') :
    s'.done.repaired = s.done.repaired := by
  rcases divideOne_cases h with ⟨f, -, rfl⟩ | ⟨x, -, -, rfl⟩ | ⟨x, ps, -, -, rfl⟩
  · exact repaired_skip s d f
  · rfl
  · rfl

theorem repaired_divideAll {trial : Bool} : ∀ {s : Run}, divideAll trial budget s ds = .ok s' →
    s'.done.repaired = s.done.repaired := by
  induction ds with
  | nil =>
    intro s h
    rw [← Except.ok.inj h]
  | cons d ds ih =>
    intro s h
    obtain ⟨s₁, hd, hds⟩ := divideAll_cons_eq_ok.mp h
    exact (ih hds).trans (repaired_divideOne hd)

theorem tree_divideOne_trial (h : divideOne true budget s d = .ok s') : s'.tree = s.tree := by
  rcases divideOne_cases h with ⟨f, -, rfl⟩ | ⟨x, -, -, rfl⟩ | ⟨x, ps, -, -, rfl⟩
  · exact tree_skip s d f
  · rfl
  · rfl

theorem exists_divideOne_trial (budget : Int) (s : Run) (d : Document) : ∃ s', divideOne true budget s d = .ok s' ∧
    s'.tree = s.tree ∧ s'.done.divisions = s.done.divisions ++ (division? budget d (readText s.tree d)).toList := by
  have hok : ∃ s', divideOne true budget s d = .ok s' := by
    unfold divideOne
    split
    · exact ⟨_, rfl⟩
    · split
      · exact ⟨_, rfl⟩
      · exact ⟨_, rfl⟩
  obtain ⟨s', h⟩ := hok
  refine ⟨s', h, tree_divideOne_trial h, ?_⟩
  rcases divideOne_cases h with ⟨f, hr, rfl⟩ | ⟨x, hr, hp, rfl⟩ | ⟨x, ps, hr, hp, rfl⟩
  · rw [divisions_skip, hr]
    exact (List.append_nil _).symm
  · rw [hr, division?, parts?, hp]
    exact (List.append_nil _).symm
  · rw [hr, division?, parts?, hp]; rfl

theorem exists_divideAll_trial (budget : Int) (ds : List Document) : ∀ s : Run,
    ∃ s', divideAll true budget s ds = .ok s' ∧ s'.tree = s.tree ∧
      s'.done.divisions = s.done.divisions ++ ds.filterMap fun d => division? budget d (readText s.tree d) := by
  induction ds with
  | nil => exact fun s => ⟨s, rfl, rfl, (List.append_nil _).symm⟩
  | cons d ds ih =>
    intro s
    obtain ⟨s₁, h₁, ht₁, hd₁⟩ := exists_divideOne_trial budget s d
    obtain ⟨s₂, h₂, ht₂, hd₂⟩ := ih s₁
    refine ⟨s₂, divideAll_cons_eq_ok.mpr ⟨s₁, h₁, h₂⟩, ht₂.trans ht₁, ?_⟩
    rw [hd₂, hd₁, ht₁, List.append_assoc, List.filterMap_cons]
    cases division? budget d (readText s.tree d) <;> rfl

end

end Run

open Run (mended? mendedNames division? parts?)

/-! ## Divisions -/

/-- What is reported of some documents that are divided, given what is read from each. -/
def allDivisions (budget : Int) (read : Document → Except Utf8.Fault Text) (ds : List Document) : List Division :=
  ds.filterMap fun d => division? budget d (read d)

section
variable {budget : Int} {read read' : Document → Except Utf8.Fault Text} {ds : List Document}

theorem name_of_division? {d : Document} {x : Except Utf8.Fault Text} {v : Division}
    (h : division? budget d x = some v) : v.name = d.name := by
  obtain ⟨ps, -, rfl⟩ := Option.map_eq_some_iff.mp h
  rfl

/-- A division is found by the name of its document. -/
theorem find?_allDivisions (hn : ds.Pairwise fun d e => d.name ≠ e.name) : ∀ d ∈ ds,
    (allDivisions budget read ds).find? (fun v => v.name = d.name) = division? budget d (read d) := by
  induction ds with
  | nil => exact fun d hd => absurd hd List.not_mem_nil
  | cons e ds ih =>
    rw [List.pairwise_cons] at hn
    intro d hd
    rw [allDivisions, List.filterMap_cons]
    rcases List.mem_cons.mp hd with rfl | hd
    · cases hv : division? budget d (read d) with
      | none =>
        rw [List.find?_eq_none]
        intro v hm hname
        obtain ⟨e, he, hev⟩ := List.mem_filterMap.mp hm
        exact hn.1 e he (by rw [← name_of_division? hev]; exact (of_decide_eq_true hname).symm)
      | some v => exact List.find?_cons_of_pos (by simp [name_of_division? hv])
    · cases hv : division? budget e (read e) with
      | none => exact ih hn.2 d hd
      | some v =>
        have hname : ¬ v.name = d.name := fun h => hn.1 d hd (by rw [← name_of_division? hv, h])
        simp only [List.find?_cons, hname, decide_false]
        exact ih hn.2 d hd

theorem allDivisions_eq_iff (hn : ds.Pairwise fun d e => d.name ≠ e.name) :
    allDivisions budget read ds = allDivisions budget read' ds ↔
      ∀ d ∈ ds, division? budget d (read d) = division? budget d (read' d) := by
  constructor
  · intro h d hd
    rw [← find?_allDivisions hn d hd, h, find?_allDivisions hn d hd]
  · exact List.filterMap_congr

end

/-- Two texts with one body are divided alike, unless only one of them is too heavy. -/
theorem division?_eq_iff {budget : Int} {x y : Text} (h : Header.body x = Header.body y) (d : Document) :
    division? budget d (.ok x) = division? budget d (.ok y) ↔
      (2 ≤ (Partition.chunks budget (Header.body x)).length → (budget < tokens x ↔ budget < tokens y)) := by
  have hparts : ∀ z, parts? budget (.ok z) = partition? budget z := fun _ => rfl
  rw [division?, division?, hparts, hparts, partition?, partition?, ← h]
  by_cases hc : (Partition.chunks budget (Header.body x)).length < 2
  · simp only [hc, ite_true, ite_self, Option.map_none, true_iff]
    omega
  · have hlen : 2 ≤ (Partition.chunks budget (Header.body x)).length := not_lt.mp hc
    simp only [hc, hlen, ite_false, true_imp_iff, ← Int.not_lt]
    by_cases hx : budget < tokens x <;> by_cases hy : budget < tokens y <;> simp [hx, hy]

/-! ## Trial and run -/

section
variable {o : MendOptions} {t : Tree} {p : Project} {r : Run}

theorem repaired_first (trial : Bool) (t : Tree) (p : Project) :
    (Run.repairAll trial { tree := t } (p.modernDocuments t)).done.repaired = mendedNames t (p.modernDocuments t) :=
  Run.repaired_names_repairAll trial (fun _ hd => Project.place_ne_nil_of_mem hd) (Project.places_pairwise t p)

theorem done_of_run (ho : o.trial = false) (h : run o t p = .ok r) :
    r.done.repaired = mendedNames t (p.modernDocuments t) ∧ r.done.divisions =
      if o.divide then allDivisions o.budget (repairedText t) (p.modernDocuments t) else [] := by
  obtain ⟨s, hs, -, hdone⟩ := passes_of_run ho h
  have hfirst : s.done.repaired = mendedNames t (p.modernDocuments t) := by
    rw [← repaired_first false]
    unfold passes at hs
    split at hs
    · exact Run.repaired_divideAll hs
    · rw [← Except.ok.inj hs]; rfl
  constructor
  · cases hr : p.rulesPlace? t with
    | none =>
      simp only [run, hr] at h
      rw [← Except.ok.inj h, Project.modernDocuments_of_none hr]; rfl
    | some dir =>
      rw [run_eq ho hr, hs] at h
      rw [← Except.ok.inj h, repaired_compare, hfirst]
  · rw [hdone]
    unfold passes at hs
    split at hs
    · next hd =>
      rw [if_pos hd]
      exact (divided_of_append (List.append_nil _).symm hs).2
    · next hd =>
      rw [if_neg hd, ← Except.ok.inj hs]
      exact Run.divisions_repairAll false _ _

theorem exists_trial (ho : o.trial = true) (t : Tree) (p : Project) : ∃ r, run o t p = .ok r ∧ r.tree = t ∧
    r.done.repaired = mendedNames t (p.modernDocuments t) ∧ r.done.divisions =
      if o.divide then allDivisions o.budget (readText t) (p.modernDocuments t) else [] := by
  cases hr : p.rulesPlace? t with
  | none =>
    refine ⟨{ tree := t, done := { problems := [.noRules] } }, by simp only [run, hr], rfl, ?_⟩
    rw [Project.modernDocuments_of_none hr]
    exact ⟨rfl, (ite_self _).symm⟩
  | some dir =>
    have htree := Run.tree_repairAll_trial (p.modernDocuments t) { tree := t }
    have hrepaired := repaired_first true t p
    have hdivisions := Run.divisions_repairAll true (p.modernDocuments t) { tree := t }
    simp only [run, hr, ho, htree]
    by_cases hd : o.divide = true
    · obtain ⟨s, hs, hst, hsd⟩ := Run.exists_divideAll_trial o.budget (p.modernDocuments t)
        (Run.repairAll true { tree := t } (p.modernDocuments t))
      rw [if_pos hd, if_pos hd, hs]
      refine ⟨s.compare p, rfl, ?_, ?_, ?_⟩
      · rw [tree_compare, hst, htree]
      · rw [repaired_compare, Run.repaired_divideAll hs, hrepaired]
      · rw [divisions_compare, hsd, hdivisions, htree]; rfl
    · rw [if_neg hd, if_neg hd]
      refine ⟨_, rfl, ?_, ?_, ?_⟩
      · rw [tree_compare, htree]
      · rw [repaired_compare, hrepaired]
      · rw [divisions_compare, hdivisions]

/-- **A trial** writes nothing, and foretells the repaired documents of a run. It foretells the
divisions too if and only if no repair takes a document that can be divided over the budget or
below it. -/
theorem trial_predicts_iff (ho : o.trial = false) (h : run o t p = .ok r) :
    ∃ r', run { o with trial := true } t p = .ok r' ∧ r'.tree = t ∧ r'.done.repaired = r.done.repaired ∧
      (r'.done.divisions = r.done.divisions ↔
        (o.divide = true → ∀ d ∈ p.modernDocuments t, ∀ x, readText t d = .ok x →
          2 ≤ (Partition.chunks o.budget (Header.body x)).length →
            (o.budget < tokens x ↔ o.budget < tokens (Header.repair x)))) := by
  obtain ⟨hrepaired, hdivisions⟩ := done_of_run ho h
  obtain ⟨r', hr', htree, hrepaired', hdivisions'⟩ := exists_trial (o := { o with trial := true }) rfl t p
  refine ⟨r', hr', htree, hrepaired'.trans hrepaired.symm, ?_⟩
  rw [hdivisions, hdivisions']
  by_cases hd : o.divide = true
  · simp only [hd, ite_true, true_imp_iff]
    rw [allDivisions_eq_iff ((Project.modernDocuments_pairwise t p).imp And.right)]
    refine forall₂_congr fun d _ => ?_
    unfold repairedText
    cases readText t d with
    | error f => simp [Except.map]
    | ok x =>
      rw [Except.map, division?_eq_iff (Header.body_repair x).symm d]
      simp
  · simp only [hd, Bool.false_eq_true, ite_false, false_imp_iff]

end

/-! ## A lone document -/

def loneDocument : Document := here.ruleDocument Project.rulesNames "x.mdc"

/-- A rules directory with one document. -/
def lone (a : String) : Tree := Tree.empty.plant [".cursor", "rules", "x.mdc"] (.file (Utf8.encode a.toList))

section
variable (a : String)

theorem modernDocuments_lone : here.modernDocuments (lone a) = [loneDocument] := by
  unfold lone
  generalize Utf8.encode a.toList = m
  cbv

theorem exists_run_lone (budget : Int)
    (h : (Run.divideAll false budget (Run.repairAll false { tree := lone a } [loneDocument])
      [loneDocument]).isOk = true) : ∃ r, run { budget := budget } (lone a) here = .ok r :=
  exists_run_here budget rfl (modernDocuments_lone a) h

end

/-- A document without a header that is too heavy before and after it is given one. -/
theorem heavy_document_is_foretold : ∃ r r',
    run { budget := 3 } (lone "first\n\nsecond") here = .ok r ∧
    run { trial := true, budget := 3 } (lone "first\n\nsecond") here = .ok r' ∧
    r'.tree = lone "first\n\nsecond" ∧ r'.done.repaired = r.done.repaired ∧ r'.done.divisions = r.done.divisions := by
  obtain ⟨r, hrun⟩ := exists_run_lone "first\n\nsecond" 3 (by decide)
  obtain ⟨r', hr', htree, hrepaired, hdivisions⟩ := trial_predicts_iff rfl hrun
  refine ⟨r, r', hrun, hr', htree, hrepaired, hdivisions.mpr fun _ => ?_⟩
  rw [modernDocuments_lone]
  intro d hd x hx _
  have htext : readText (lone "first\n\nsecond") d = .ok "first\n\nsecond".toList := by
    rw [List.mem_singleton.mp hd]; decide
  rw [← Except.ok.inj (htext.symm.trans hx)]
  decide

/-- A document that only its new header makes too heavy. -/
theorem new_header_is_not_foretold : ∃ r r',
    run { budget := 5 } (lone "a\n\nb") here = .ok r ∧
    run { trial := true, budget := 5 } (lone "a\n\nb") here = .ok r' ∧
    r.done.divisions = [⟨"x.mdc", ["x-part1.mdc", "x-part2.mdc"]⟩] ∧ r'.done.divisions = [] := by
  obtain ⟨r, hrun⟩ := exists_run_lone "a\n\nb" 5 (by decide)
  obtain ⟨r', hr', -, -, hdivisions'⟩ := exists_trial (o := { trial := true, budget := 5 }) rfl (lone "a\n\nb") here
  have hdivisions := (done_of_run rfl hrun).2
  rw [modernDocuments_lone] at hdivisions hdivisions'
  refine ⟨r, r', hrun, hr', hdivisions.trans ?_, hdivisions'.trans ?_⟩
  · decide
  · decide

end AgentRules.Mending
