import Mathlib
import AgentRules.Proofs.Mending.Guidance
import AgentRules.Proofs.Mending.Trial
import AgentRules.Proofs.Survey

/-!
# What cannot be read

Each of the three passes of mending comes upon the documents that cannot be read, and files come and
go on the way. The first pass reports the modern ones. The second one meets no others, and the last
one only the legacy file, since nothing becomes unreadable that could be read before. Main statement:
`unreadable_reported_once`.
-/

namespace AgentRules.Mending

open Project (Document Readable readText LiesIn)

/-- What is reported of a document, given what is read from it. -/
def problem? (d : Document) : Except Utf8.Fault Text → Option Problem
  | .ok _ => none
  | .error f => some (.unreadable d.name f)

namespace Run

/-! ## Reports -/

/-- The problems that have been reported, with the places that they are about. -/
def reports (s : Run) : List Problem × List Place := (s.done.problems, s.reported)

def reportOne (x : List Problem × List Place) (d : Document) (y : Except Utf8.Fault Text) : List Problem × List Place :=
  match problem? d y with
  | some q => if d.place ∈ x.2 then x else (x.1 ++ [q], x.2 ++ [d.place])
  | none => x

def reportAll (read : Document → Except Utf8.Fault Text) (x : List Problem × List Place) (ds : List Document) :
    List Problem × List Place := ds.foldl (fun x d => reportOne x d (read d)) x

section
variable {read read' : Document → Except Utf8.Fault Text} {x : List Problem × List Place} {d : Document}
  {ds : List Document}

theorem reportAll_cons : reportAll read x (d :: ds) = reportAll read (reportOne x d (read d)) ds := rfl

theorem reportAll_append (es : List Document) : reportAll read x (ds ++ es) = reportAll read (reportAll read x ds) es :=
  List.foldl_append

theorem reportAll_congr (h : ∀ d ∈ ds, read d = read' d) (x : List Problem × List Place) :
    reportAll read x ds = reportAll read' x ds :=
  List.foldl_ext _ _ x fun x d hd => by rw [h d hd]

theorem reportOne_of_mem (h : problem? d (read d) ≠ none → d.place ∈ x.2) : reportOne x d (read d) = x := by
  unfold reportOne
  cases hq : problem? d (read d) with
  | none => rfl
  | some q => exact if_pos (h (by rw [hq]; exact Option.some_ne_none q))

/-- A place is not reported twice. -/
theorem reportAll_of_mem (h : ∀ d ∈ ds, problem? d (read d) ≠ none → d.place ∈ x.2) : reportAll read x ds = x := by
  induction ds with
  | nil => rfl
  | cons d ds ih =>
    rw [reportAll_cons, reportOne_of_mem (h d List.mem_cons_self)]
    exact ih fun e he => h e (List.mem_cons_of_mem d he)

theorem reportOne_of_not_mem (h : d.place ∉ x.2) : reportOne x d (read d) =
    (x.1 ++ (problem? d (read d)).toList, x.2 ++ ([d].filter fun d => (problem? d (read d)).isSome).map (·.place)) := by
  unfold reportOne
  cases hq : problem? d (read d) with
  | none => simp [hq]
  | some q => simp [hq, h]

/-- New places are reported in their order. -/
theorem reportAll_of_not_mem : ∀ {x : List Problem × List Place}, ds.Pairwise (fun d e => d.place ≠ e.place) →
    (∀ d ∈ ds, d.place ∉ x.2) → reportAll read x ds =
      (x.1 ++ ds.filterMap (fun d => problem? d (read d)),
        x.2 ++ (ds.filter fun d => (problem? d (read d)).isSome).map (·.place)) := by
  induction ds with
  | nil =>
    intro x _ _
    simp [reportAll]
  | cons d ds ih =>
    intro x hn hx
    rw [List.pairwise_cons] at hn
    rw [reportAll_cons, reportOne_of_not_mem (hx d List.mem_cons_self), ih hn.2, List.filterMap_cons, List.filter_cons]
    · cases hq : problem? d (read d) <;> simp [hq]
    · intro e he hm
      rcases List.mem_append.mp hm with hm | hm
      · exact hx e (List.mem_cons_of_mem d he) hm
      · obtain ⟨g, hg, hp⟩ := List.mem_map.mp hm
        rw [List.mem_singleton.mp (List.mem_of_mem_filter hg)] at hp
        exact hn.1 e he hp

end

/-! ## Steps -/

theorem reports_skip (s : Run) (d : Document) (f : Utf8.Fault) :
    (s.skip d f).reports = reportOne s.reports d (.error f) := by
  unfold skip reportOne problem? reports
  simp only [List.contains_iff_mem]
  by_cases h : d.place ∈ s.reported
  · simp [h, note]
  · simp [h, note]

theorem reports_repairOne (trial : Bool) (s : Run) (d : Document) :
    (repairOne trial s d).reports = reportOne s.reports d (readText s.tree d) := by
  rcases repairOne_cases trial s d with ⟨f, hr, he⟩ | ⟨x, hr, -, he⟩ | ⟨x, hr, -, he⟩
  · rw [he, hr, reports_skip]
  · rw [he, hr]; rfl
  · rw [he, hr]; rfl

theorem reports_divideOne {trial : Bool} {budget : Int} {s s' : Run} {d : Document}
    (h : divideOne trial budget s d = .ok s') : s'.reports = reportOne s.reports d (readText s.tree d) := by
  rcases divideOne_cases h with ⟨f, hr, rfl⟩ | ⟨x, hr, -, rfl⟩ | ⟨x, ps, hr, -, rfl⟩
  · rw [hr, reports_skip]
  · rw [hr]; rfl
  · rw [hr]; rfl

theorem reports_readOne (p : Project) (s : Run × List Rule) (d : Document) :
    (readOne p s d).1.reports = reportOne s.1.reports d (readText s.1.tree d) := by
  unfold readOne Project.readRule
  cases readText s.1.tree d with
  | error f => exact reports_skip s.1 d f
  | ok x => rfl

/-! ## Passes -/

theorem reports_repairAll (trial : Bool) {ds : List Document} : ∀ {s : Run}, (∀ d ∈ ds, d.place ≠ []) →
    ds.Pairwise (fun d e => d.place ≠ e.place) →
    (repairAll trial s ds).reports = reportAll (readText s.tree) s.reports ds := by
  induction ds with
  | nil => intro s _ _; rfl
  | cons d ds ih =>
    intro s hp hn
    rw [List.pairwise_cons] at hn
    have hread : ∀ e ∈ ds, readText (repairOne trial s d).tree e = readText s.tree e := fun e he =>
      Project.readText_congr (get?_repairOne trial (hp d List.mem_cons_self) (Ne.symm (hn.1 e he)))
    have hall : repairAll trial s (d :: ds) = repairAll trial (repairOne trial s d) ds := rfl
    rw [hall, ih (fun e he => hp e (List.mem_cons_of_mem d he)) hn.2, reports_repairOne, reportAll_congr hread]; rfl

theorem reports_divideAll {trial : Bool} {budget : Int} {dir : Place} {ds : List Document} : ∀ {s s' : Run},
    (∀ d ∈ ds, LiesIn dir d) → (ds.Pairwise fun d e => nameLe d.name e.name = true ∧ d.name ≠ e.name) →
    divideAll trial budget s ds = .ok s' → s'.reports = reportAll (readText s.tree) s.reports ds := by
  induction ds with
  | nil =>
    intro s s' _ _ h
    rw [← Except.ok.inj h]; rfl
  | cons d ds ih =>
    intro s s' hl hs h
    obtain ⟨s₁, hd, hds⟩ := divideAll_cons_eq_ok.mp h
    rw [List.pairwise_cons] at hs
    have hl' : ∀ e ∈ ds, LiesIn dir e := fun e he => hl e (List.mem_cons_of_mem d he)
    have hread : ∀ e ∈ ds, readText s₁.tree e = readText s.tree e := by
      intro e he
      cases trial with
      | true => rw [tree_divideOne_trial hd]
      | false => exact readText_divideOne (hl d List.mem_cons_self) (hl' e he) (hs.1 e he) hd
    rw [ih hl' hs.2 hds, reports_divideOne hd, reportAll_congr hread]; rfl

theorem reports_foldl_readOne (p : Project) (ds : List Document) : ∀ s : Run × List Rule,
    (ds.foldl (readOne p) s).1.reports = reportAll (readText s.1.tree) s.1.reports ds := by
  induction ds with
  | nil => exact fun _ => rfl
  | cons d ds ih =>
    intro s
    have htree : (readOne p s d).1.tree = s.1.tree := (foldl_readOne p [d] s).1
    rw [List.foldl_cons, ih, htree, reports_readOne]; rfl

theorem reports_compare (s : Run) (p : Project) :
    (s.compare p).reports = reportAll (readText s.tree) s.reports (p.documents s.tree) :=
  reports_foldl_readOne p _ _

end Run

open Run (reportAll mendedNames)

/-! ## What is unreadable before and after -/

theorem problem?_repairedText (t : Tree) (d : Document) : problem? d (repairedText t d) = problem? d (readText t d) := by
  unfold repairedText
  cases readText t d <;> rfl

/-- Nothing has become unreadable, and the legacy file is as it was. -/
structure Unspoilt (t u : Tree) (p : Project) : Prop where
  legacy : p.legacyDocuments u = p.legacyDocuments t
  text : ∀ d ∈ p.legacyDocuments t, readText u d = readText t d
  modern : ∀ d ∈ p.modernDocuments u, problem? d (readText u d) ≠ none →
    d ∈ p.modernDocuments t ∧ problem? d (readText t d) ≠ none

section
variable {o : MendOptions} {t u : Tree} {p : Project} {dir : Place} {d : Document} {r : Run}

theorem mem_legacyDocuments (hd : d ∈ p.legacyDocuments t) :
    ∃ place, p.place? = some place ∧ d = p.document place .legacy [Project.legacyName] := by
  unfold Project.legacyDocuments at hd
  cases hp : p.place? with
  | none => rw [hp] at hd; cases hd
  | some place =>
    rw [hp] at hd
    simp only at hd
    split at hd
    · exact ⟨place, rfl, List.mem_singleton.mp hd⟩
    · cases hd

theorem legacy_place_ne {place : Place} (name : String) :
    place ++ Project.rulesNames ++ [name] ≠ place ++ [Project.legacyName] := by
  intro h
  simpa [Project.rulesNames] using congrArg List.length h

theorem get?_legacy_settled (h : Settled o t p u) {place : Place} (hr : p.rulesPlace? t = some (place ++ Project.rulesNames)) :
    u.get? (place ++ [Project.legacyName]) = t.get? (place ++ [Project.legacyName]) := by
  refine h.kept _ ?_ fun d hd hp => ?_
  · intro hm
    obtain ⟨f, hf, he⟩ := List.mem_map.mp hm
    obtain ⟨name, -, hn⟩ := place_of_newFile hr hf
    exact legacy_place_ne name (hn.symm.trans he)
  · rw [(Project.liesIn_of_mem hr hd).place] at hp
    exact absurd hp (legacy_place_ne d.name)

theorem unspoilt_of_settled (hr : p.rulesPlace? t = some dir) (h : Settled o t p u) : Unspoilt t u p := by
  obtain ⟨place, hp, rfl, -⟩ := Project.rulesPlace?_eq_some_iff.mp hr
  have hget := get?_legacy_settled h hr
  refine ⟨?_, fun d hd => ?_, fun d hd hq => ?_⟩
  · simp only [Project.legacyDocuments, hp, Tree.isFile_congr hget]
  · obtain ⟨_, hp', rfl⟩ := mem_legacyDocuments hd
    rw [← Option.some.inj (hp.symm.trans hp')]
    exact Project.readText_congr hget
  · rcases part_or_whole h hr hd with ⟨f, -, hw⟩ | ⟨hm, -, -, hread⟩
    · rw [Project.readText_of_holds hw] at hq
      exact absurd rfl hq
    · rw [hread, problem?_repairedText] at hq
      exact ⟨hm, hq⟩

/-- The run before its second pass, on trial or not. -/
def firstPass (o : MendOptions) (t : Tree) (p : Project) : Run :=
  Run.repairAll o.trial { tree := t } (p.modernDocuments t)

theorem modernDocuments_firstPass (o : MendOptions) (t : Tree) (p : Project) :
    p.modernDocuments (firstPass o t p).tree = p.modernDocuments t := by
  unfold firstPass
  cases o.trial with
  | true => rw [Run.tree_repairAll_trial]
  | false => exact modernDocuments_afterFirst t p

theorem problem?_firstPass (hd : d ∈ p.modernDocuments t) :
    problem? d (readText (firstPass o t p).tree d) = problem? d (readText t d) := by
  unfold firstPass
  cases o.trial with
  | true => rw [Run.tree_repairAll_trial]
  | false =>
    show problem? d (readText (afterFirst t p).tree d) = _
    rw [readText_afterFirst hd, problem?_repairedText]

/-- A run is compared after its first pass, or after both. -/
theorem exists_compared (hr : p.rulesPlace? t = some dir) (h : run o t p = .ok r) : ∃ s : Run, r = s.compare p ∧
    (s = firstPass o t p ∨ Run.divideAll o.trial o.budget (firstPass o t p) (p.modernDocuments t) = .ok s) := by
  simp only [run, hr] at h
  rw [← firstPass, modernDocuments_firstPass] at h
  by_cases hd : o.divide = true
  · rw [if_pos hd] at h
    cases hs : Run.divideAll o.trial o.budget (firstPass o t p) (p.modernDocuments t) with
    | error e => rw [hs] at h; cases h
    | ok s =>
      rw [hs] at h
      exact ⟨s, (Except.ok.inj h).symm, Or.inr rfl⟩
  · rw [if_neg hd] at h
    exact ⟨_, (Except.ok.inj h).symm, Or.inl rfl⟩

theorem unspoilt_of_run (hr : p.rulesPlace? t = some dir) (h : run o t p = .ok r) : Unspoilt t r.tree p := by
  cases ho : o.trial with
  | false => exact unspoilt_of_settled hr (settled_of_run ho h)
  | true =>
    obtain ⟨r', h', htree, -⟩ := exists_trial ho t p
    rw [← Except.ok.inj (h'.symm.trans h), htree]
    exact ⟨rfl, fun _ _ => rfl, fun _ hd hq => ⟨hd, hq⟩⟩

/-! ## What is reported -/

theorem reports_firstPass (o : MendOptions) (t : Tree) (p : Project) : (firstPass o t p).reports =
    ((p.modernDocuments t).filterMap (fun d => problem? d (readText t d)),
      ((p.modernDocuments t).filter fun d => (problem? d (readText t d)).isSome).map (·.place)) := by
  have hn := Project.places_pairwise t p
  rw [firstPass, Run.reports_repairAll o.trial (fun _ hd => Project.place_ne_nil_of_mem hd) hn]
  exact Run.reportAll_of_not_mem hn fun _ _ => List.not_mem_nil

theorem mem_reports_firstPass : d.place ∈ (firstPass o t p).reports.2 ↔
    ∃ e ∈ p.modernDocuments t, problem? e (readText t e) ≠ none ∧ e.place = d.place := by
  rw [reports_firstPass]
  simp [and_assoc, Option.isSome_iff_ne_none]

theorem reports_compared {s : Run}
    (h : s = firstPass o t p ∨ Run.divideAll o.trial o.budget (firstPass o t p) (p.modernDocuments t) = .ok s) :
    s.reports = (firstPass o t p).reports := by
  rcases h with rfl | h
  · rfl
  · obtain ⟨dir, hdir⟩ := exists_directory t p
    rw [Run.reports_divideAll hdir (Project.modernDocuments_pairwise t p) h]
    refine Run.reportAll_of_mem fun d hd hq => ?_
    rw [problem?_firstPass hd] at hq
    exact mem_reports_firstPass.mpr ⟨d, hd, hq, rfl⟩

theorem legacyDocuments_cases (t : Tree) (p : Project) : p.legacyDocuments t = [] ∨ ∃ d, p.legacyDocuments t = [d] := by
  unfold Project.legacyDocuments
  split
  · split
    · exact Or.inr ⟨_, rfl⟩
    · exact Or.inl rfl
  · exact Or.inl rfl

theorem place_not_mem_reports (hr : p.rulesPlace? t = some dir) (hd : d ∈ p.legacyDocuments t) :
    d.place ∉ (firstPass o t p).reports.2 := by
  intro hm
  obtain ⟨e, he, -, hp⟩ := mem_reports_firstPass.mp hm
  obtain ⟨place, hplace, rfl⟩ := mem_legacyDocuments hd
  obtain ⟨_, hplace', rfl, -⟩ := Project.rulesPlace?_eq_some_iff.mp hr
  rw [(Project.liesIn_of_mem hr he).place, ← Option.some.inj (hplace.symm.trans hplace')] at hp
  exact legacy_place_ne e.name hp

theorem problems_of_run (hr : p.rulesPlace? t = some dir) (h : run o t p = .ok r) : r.done.problems =
    (p.modernDocuments t ++ p.legacyDocuments t).filterMap fun d => problem? d (readText t d) := by
  have hspoilt := unspoilt_of_run hr h
  obtain ⟨s, rfl, hs⟩ := exists_compared hr h
  rw [tree_compare] at hspoilt
  -- The legacy file is new in the last pass.
  have hn : (p.legacyDocuments t).Pairwise fun d e => d.place ≠ e.place := by
    rcases legacyDocuments_cases t p with hl | ⟨d, hl⟩ <;> simp [hl]
  have hlegacy : reportAll (readText s.tree) s.reports (p.legacyDocuments t) = _ :=
    Run.reportAll_of_not_mem hn fun d hd => by rw [reports_compared hs]; exact place_not_mem_reports hr hd
  -- The others that cannot be read have been met in the first one.
  have hmodern : ∀ d ∈ p.modernDocuments s.tree, problem? d (readText s.tree d) ≠ none →
      d.place ∈ (reportAll (readText s.tree) s.reports (p.legacyDocuments t)).2 := by
    intro d hd hq
    obtain ⟨hm, hq⟩ := hspoilt.modern d hd hq
    rw [hlegacy, reports_compared hs]
    exact List.mem_append_left _ (mem_reports_firstPass.mpr ⟨d, hm, hq, rfl⟩)
  have hall : (s.compare p).reports = reportAll (readText s.tree) s.reports (p.legacyDocuments t) := by
    rw [Run.reports_compare, Project.documents, hspoilt.legacy, Run.reportAll_append, Run.reportAll_of_mem hmodern]
  have hproblems : (s.compare p).done.problems = (s.compare p).reports.1 := rfl
  have hread : (p.legacyDocuments t).filterMap (fun d => problem? d (readText s.tree d)) =
      (p.legacyDocuments t).filterMap fun d => problem? d (readText t d) :=
    List.filterMap_congr fun d hd => by rw [hspoilt.text d hd]
  rw [hproblems, hall, hlegacy, hread, reports_compared hs, reports_firstPass, List.filterMap_append]

theorem forall₂_problems {ds : List Document} (hf : ∀ d ∈ ds, t.isFile d.place = true) :
    List.Forall₂ (fun d q => ∃ f, readText t d = .error f ∧ q = .unreadable d.name f)
      (ds.filter fun d => ¬ Readable t d) (ds.filterMap fun d => problem? d (readText t d)) := by
  induction ds with
  | nil => exact .nil
  | cons d ds ih =>
    have ih := ih fun e he => hf e (List.mem_cons_of_mem d he)
    rw [List.filterMap_cons]
    by_cases h : Readable t d
    · obtain ⟨x, hx⟩ := h
      rw [List.filter_cons_of_neg (by simpa using ⟨x, hx⟩), Project.readText_of_holds hx]
      exact ih
    · obtain ⟨f, he⟩ := Project.readText_of_not_readable (hf d List.mem_cons_self) h
      rw [List.filter_cons_of_pos (by simpa using h), he]
      exact .cons ⟨f, he, rfl⟩ ih

/-! ## What is mended -/

theorem done_of_any_run (h : run o t p = .ok r) : r.done.repaired = mendedNames t (p.modernDocuments t) ∧
    ∃ read, (∀ d, problem? d (read d) = problem? d (readText t d)) ∧
      r.done.divisions ⊆ allDivisions o.budget read (p.modernDocuments t) := by
  cases ho : o.trial with
  | false =>
    obtain ⟨hrepaired, hdivisions⟩ := done_of_run ho h
    refine ⟨hrepaired, repairedText t, problem?_repairedText t, ?_⟩
    rw [hdivisions]
    split <;> simp
  | true =>
    obtain ⟨r', h', -, hrepaired, hdivisions⟩ := exists_trial ho t p
    rw [← Except.ok.inj (h'.symm.trans h)]
    refine ⟨hrepaired, readText t, fun _ => rfl, ?_⟩
    rw [hdivisions]
    split <;> simp

theorem readable_of_repaired (h : run o t p = .ok r) {name : String} (hn : name ∈ r.done.repaired) :
    ∃ d ∈ p.modernDocuments t, d.name = name ∧ problem? d (readText t d) = none := by
  rw [(done_of_any_run h).1] at hn
  obtain ⟨d, hd, rfl⟩ := List.mem_map.mp hn
  rw [List.mem_filter] at hd
  refine ⟨d, hd.1, rfl, ?_⟩
  unfold problem?
  have hm := hd.2
  unfold Run.mended? at hm
  cases hx : readText t d with
  | error f => rw [hx] at hm; cases hm
  | ok x => rfl

theorem readable_of_divided (h : run o t p = .ok r) {v : Division} (hv : v ∈ r.done.divisions) :
    ∃ d ∈ p.modernDocuments t, d.name = v.name ∧ problem? d (readText t d) = none := by
  obtain ⟨-, read, hread, hsub⟩ := done_of_any_run h
  obtain ⟨d, hd, hv⟩ := List.mem_filterMap.mp (hsub hv)
  refine ⟨d, hd, (name_of_division? hv).symm, ?_⟩
  rw [← hread]
  cases hx : read d with
  | error f => rw [hx] at hv; cases hv
  | ok x => rfl

theorem eq_of_name_eq {e : Document} (hr : p.rulesPlace? t = some dir) (hd : d ∈ p.documents t)
    (he : e ∈ p.modernDocuments t) (h : e.name = d.name) : e = d := by
  have hle := Project.liesIn_of_mem hr he
  rcases List.mem_append.mp hd with hd | hd
  · obtain ⟨place, -, rfl⟩ := mem_legacyDocuments hd
    have hname : (p.document place .legacy [Project.legacyName]).name = Project.legacyName := by
      simp [Project.document, Document.name, Path.name, Path.below]
    have hstem := hle.stem
    rw [h, hname] at hstem
    exact absurd hstem (by decide)
  · exact eq_of_place_eq hd he ((hle.place_eq_iff (Project.liesIn_of_mem hr hd)).mpr h)

/-- **Unreadable documents** are reported once each by any run, the modern ones in the order of their
names and then the legacy file, and nothing else is reported. They are neither repaired nor divided. -/
theorem unreadable_reported_once (hr : p.rulesPlace? t = some dir) (h : run o t p = .ok r) :
    List.Forall₂ (fun d q => ∃ f, readText t d = .error f ∧ q = .unreadable d.name f ∧
        q.message = "Cannot read rule file " ++ d.name ++ ": " ++ f.message)
      ((p.modernDocuments t ++ p.legacyDocuments t).filter fun d => ¬ Readable t d) r.done.problems ∧
    (p.modernDocuments t).Pairwise (fun d e => nameLe d.name e.name = true ∧ d.name ≠ e.name) ∧
    ∀ d ∈ p.documents t, ¬ Readable t d →
      d.name ∉ r.done.repaired ∧ d.name ∉ r.done.divisions.map (·.name) := by
  have hfile : ∀ d ∈ p.documents t, t.isFile d.place = true := fun d hd => Project.isFile_of_mem_documents hd
  refine ⟨?_, Project.modernDocuments_pairwise t p, fun d hd hn => ?_⟩
  · rw [problems_of_run hr h]
    refine (forall₂_problems fun d hd => hfile d ?_).imp ?_
    · rw [Project.documents, List.mem_append]
      exact (List.mem_append.mp hd).symm
    · rintro d q ⟨f, hf, rfl⟩
      exact ⟨f, hf, rfl, rfl⟩
  · have hread : ∀ e ∈ p.modernDocuments t, e.name = d.name → problem? e (readText t e) ≠ none := by
      intro e he hname
      obtain ⟨f, hf⟩ := Project.readText_of_not_readable (hfile d hd) hn
      rw [eq_of_name_eq hr hd he hname, hf]
      exact Option.some_ne_none _
    constructor
    · intro hm
      obtain ⟨e, he, hname, hnone⟩ := readable_of_repaired h hm
      exact hread e he hname hnone
    · intro hm
      obtain ⟨v, hv, hname⟩ := List.mem_map.mp hm
      obtain ⟨e, he, hv', hnone⟩ := readable_of_divided h hv
      exact hread e he (hv'.trans hname) hnone

end

/-- A legacy file and a document that are no text, and one that is divided over the document. -/
def marred : Tree :=
  ((Tree.empty.plant [".cursorrules"] (.file [0xff])).plant
    [".cursor", "rules", "x-part1.mdc"] (.file [0xff])).plant
    [".cursor", "rules", "x.mdc"] (.file (Utf8.encode "---\na: b\n---\none\n\ntwo".toList))

theorem modernDocuments_marred : here.modernDocuments marred = clashingDocuments := by cbv

theorem unreadable_marred :
    (here.modernDocuments marred ++ here.legacyDocuments marred).filter (fun d => ¬ Readable marred d) =
      [here.ruleDocument Project.rulesNames "x-part1.mdc", here.document [] .legacy [".cursorrules"]] := by
  rw [modernDocuments_marred]
  decide +kernel

/-- Of a document that a part is written over, only the first pass can tell. -/
theorem overwritten_document_is_reported : ∃ r, run { budget := 5 } marred here = .ok r ∧
    r.done.problems =
      [.unreadable "x-part1.mdc" ⟨0xff, 0, 1, .start⟩, .unreadable ".cursorrules" ⟨0xff, 0, 1, .start⟩] ∧
    "x-part1.mdc" ∉ r.done.repaired ∧ "x-part1.mdc" ∉ r.done.divisions.map (·.name) := by
  obtain ⟨r, hrun⟩ := exists_run_here 5 rfl modernDocuments_marred (by decide +kernel)
  obtain ⟨hproblems, -, hmended⟩ := unreadable_reported_once rfl hrun
  rw [unreadable_marred] at hproblems
  obtain ⟨q, qs, ⟨f, hf, rfl, -⟩, hlegacy, hqs⟩ := List.forall₂_cons_left_iff.mp hproblems
  obtain ⟨q, qs, ⟨g, hg, rfl, -⟩, hnil, rfl⟩ := List.forall₂_cons_left_iff.mp hlegacy
  have hfault : readText marred (here.ruleDocument Project.rulesNames "x-part1.mdc") =
      .error ⟨0xff, 0, 1, .start⟩ := by decide
  have hfault' : readText marred (here.document [] .legacy [".cursorrules"]) = .error ⟨0xff, 0, 1, .start⟩ := by decide
  refine ⟨r, hrun, ?_, hmended (here.ruleDocument Project.rulesNames "x-part1.mdc") ?_ (by decide +kernel)⟩
  · rw [hqs, List.forall₂_nil_left_iff.mp hnil, ← Except.error.inj (hfault.symm.trans hf),
      ← Except.error.inj (hfault'.symm.trans hg)]
    rfl
  · rw [Project.documents, modernDocuments_marred]
    exact List.mem_append_right _ List.mem_cons_self

end AgentRules.Mending
