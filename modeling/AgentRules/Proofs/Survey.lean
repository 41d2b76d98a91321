import Mathlib
import AgentRules.Survey
import AgentRules.Proofs.Mending.Outcome
import AgentRules.Proofs.Text.Utf8

/-!
# Strict and lenient reading

Documents are read on three occasions: loading refuses the first one that is not UTF-8, a survey
makes an issue of each, and mending passes over them when it compares what it has left behind. All of
them find the same rules. Main statements: `readers_agree`, and `foldl_documents_eq_ofProject` for a
survey that goes on document by document.
-/

namespace AgentRules

namespace Project

/-! ## Documents in UTF-8 -/

def Holds (t : Tree) (d : Document) (x : Text) : Prop := t.get? d.place = some (.file (Utf8.encode x))

/-- The bytes of a document are those of some text. -/
def Readable (t : Tree) (d : Document) : Prop := ∃ x, Holds t d x

section
variable {t : Tree} {p : Project} {d : Document}

theorem readText_of_holds {x : Text} (h : Holds t d x) : readText t d = .ok (Text.unifyLineEnds x) := by
  rw [readText, Tree.read?_of_written h]; rfl

theorem readText_of_not_readable (hf : t.isFile d.place = true) (h : ¬ Readable t d) :
    ∃ f, readText t d = .error f := by
  obtain ⟨bytes, hb⟩ := Tree.isFile_iff.mp hf
  cases hd : Utf8.decode bytes with
  | error f => exact ⟨f, by simp only [readText, Tree.read?, hb, hd]; rfl⟩
  | ok x => exact absurd ⟨x, by rw [Holds, Utf8.decode_eq_ok_iff.mp hd]; exact hb⟩ h

theorem readable_iff : Readable t d ↔ t.isFile d.place = true ∧ (readText t d).toBool = true := by
  constructor
  · rintro ⟨x, hx⟩
    exact ⟨Tree.isFile_iff.mpr ⟨_, hx⟩, by rw [readText_of_holds hx]; rfl⟩
  · rintro ⟨hf, hok⟩
    by_contra h
    obtain ⟨f, he⟩ := readText_of_not_readable hf h
    rw [he] at hok
    cases hok

instance (t : Tree) (d : Document) : Decidable (Readable t d) := decidable_of_iff _ readable_iff.symm

theorem isFile_of_mem_documents (h : d ∈ p.documents t) : t.isFile d.place = true := by
  rw [documents, List.mem_append] at h
  rcases h with h | h
  · unfold legacyDocuments at h
    cases hp : p.place? with
    | none => rw [hp] at h; cases h
    | some place =>
      rw [hp] at h
      simp only at h
      split at h
      · next hf =>
        rw [List.mem_singleton.mp h]
        exact hf
      · cases h
  · exact isFile_of_mem h

/-! ## Loading -/

def load (t : Tree) (p : Project) (d : Document) : Except Unreadable Rule :=
  match p.readRule t d with
  | .ok r => .ok r
  | .error f => .error ⟨d.path, f⟩

theorem rules_eq (t : Tree) (p : Project) : p.rules t = (p.documents t).mapM (p.load t) := rfl

theorem readRule_of_holds {x : Text} (h : Holds t d x) :
    p.readRule t d = .ok ⟨p.identifier d, d.kind, Text.unifyLineEnds x⟩ := by
  rw [readRule, readText_of_holds h]; rfl

theorem readRule_of_not_readable (hf : t.isFile d.place = true) (h : ¬ Readable t d) :
    ∃ f, readText t d = .error f ∧ p.readRule t d = .error f := by
  obtain ⟨f, he⟩ := readText_of_not_readable hf h
  exact ⟨f, he, by rw [readRule, he]; rfl⟩

/-- Readable documents are loaded as a survey reads them. -/
theorem mapM_load {ds : List Document} (h : ∀ d ∈ ds, Readable t d) :
    ds.mapM (p.load t) = .ok (ds.filterMap fun d => (p.readRule t d).toOption) := by
  induction ds with
  | nil => rfl
  | cons d ds ih =>
    obtain ⟨x, hx⟩ := h d List.mem_cons_self
    have hrule := readRule_of_holds (p := p) hx
    have hload : p.load t d = .ok ⟨p.identifier d, d.kind, Text.unifyLineEnds x⟩ := by rw [load, hrule]
    rw [List.mapM_cons, hload, ih fun e he => h e (List.mem_cons_of_mem d he), List.filterMap_cons, hrule]
    rfl

/-- Loading ends at the first document that cannot be read. -/
theorem mapM_load_append {ds es : List Document} (h : ∀ e ∈ ds, Readable t e) {f : Utf8.Fault}
    (hd : p.readRule t d = .error f) : (ds ++ d :: es).mapM (p.load t) = .error ⟨d.path, f⟩ := by
  have hload : p.load t d = .error ⟨d.path, f⟩ := by rw [load, hd]
  rw [List.mapM_append, mapM_load h, List.mapM_cons, hload]
  rfl

end

theorem exists_first_unreadable {t : Tree} {ds : List Document} (h : ∃ d ∈ ds, ¬ Readable t d) :
    ∃ before d after, ds = before ++ d :: after ∧ (∀ e ∈ before, Readable t e) ∧ ¬ Readable t d := by
  induction ds with
  | nil =>
    obtain ⟨d, hd, -⟩ := h
    cases hd
  | cons e ds ih =>
    by_cases he : Readable t e
    · have hrest : ∃ d ∈ ds, ¬ Readable t d := by
        obtain ⟨d, hd, hn⟩ := h
        rcases List.mem_cons.mp hd with rfl | hd
        · exact absurd he hn
        · exact ⟨d, hd, hn⟩
      obtain ⟨before, d, after, rfl, hb, hn⟩ := ih hrest
      exact ⟨e :: before, d, after, rfl, List.forall_mem_cons.mpr ⟨he, hb⟩, hn⟩
    · exact ⟨[], e, ds, rfl, by simp, he⟩

section
variable {t : Tree} {p : Project}

theorem rules_of_readable (h : ∀ d ∈ p.documents t, Readable t d) : p.rules t = .ok (Survey.readableRules t p) := by
  rw [rules_eq, mapM_load h]; rfl

theorem rules_of_unreadable {before after : List Document} {d : Document}
    (hds : p.documents t = before ++ d :: after) (hb : ∀ e ∈ before, Readable t e) (hd : ¬ Readable t d) :
    ∃ f, readText t d = .error f ∧ p.rules t = .error ⟨d.path, f⟩ := by
  have hmem : d ∈ p.documents t := by rw [hds]; simp
  obtain ⟨f, he, hr⟩ := readRule_of_not_readable (p := p) (isFile_of_mem_documents hmem) hd
  exact ⟨f, he, by rw [rules_eq, hds, mapM_load_append hb hr]⟩

theorem exists_refused_iff : (∃ u, p.rules t = .error u) ↔ ∃ d ∈ p.documents t, ¬ Readable t d := by
  constructor
  · intro ⟨u, hu⟩
    by_contra hall
    rw [rules_of_readable (by simpa using hall)] at hu
    cases hu
  · intro h
    obtain ⟨before, d, after, hds, hb, hd⟩ := exists_first_unreadable h
    obtain ⟨f, -, he⟩ := rules_of_unreadable hds hb hd
    exact ⟨_, he⟩

end

end Project

open Project (Document Readable Holds readText)

/-! ## Surveys -/

/-- The rule that a document holds. -/
def RuleOf (t : Tree) (p : Project) (d : Document) (r : Rule) : Prop :=
  ∃ x, Holds t d x ∧ r = ⟨p.identifier d, d.kind, Text.unifyLineEnds x⟩

/-- What a survey has to say about a document. -/
structure FileOf (limits : LineLimits) (cs : List Check) (t : Tree) (p : Project) (d : Document) (f : FileIssues) :
    Prop where
  identifier : f.identifier = p.identifier d
  readable : ∀ r, RuleOf t p d r → f.issues = r.issues limits cs
  broken : ¬ Readable t d → ∃ i : Issue, f.issues = [i] ∧ i.severity = .error

/-- **Reading alike.** What loading and a survey make of one project. -/
structure ReadAlike (limits : LineLimits) (cs : List Check) (t : Tree) (p : Project) : Prop where
  refused : (∃ u, p.rules t = .error u) ↔ ∃ d ∈ p.documents t, ¬ Readable t d
  first : ∀ before d after, p.documents t = before ++ d :: after → (∀ e ∈ before, Readable t e) → ¬ Readable t d →
    ∃ f, readText t d = .error f ∧ p.rules t = .error ⟨d.path, f⟩ ∧
      Project.Unreadable.message ⟨d.path, f⟩ = "Cannot read rule file " ++ d.path.text ++ ": " ++ f.message
  loaded : (∀ d ∈ p.documents t, Readable t d) → p.rules t = .ok (Survey.ofProject limits cs t p).rules
  files : List.Forall₂ (FileOf limits cs t p) (p.documents t) (Survey.ofProject limits cs t p).files
  rules : List.Forall₂ (RuleOf t p) ((p.documents t).filter fun d => Readable t d)
    (Survey.ofProject limits cs t p).rules

namespace Survey

section
variable {t : Tree} {p : Project}

theorem fileOf_fileIssues (limits : LineLimits) (cs : List Check) {d : Document} (hf : t.isFile d.place = true) :
    FileOf limits cs t p d (fileIssues limits cs t p d) where
  identifier := by
    unfold fileIssues
    split <;> rfl
  readable := by
    rintro r ⟨x, hx, rfl⟩
    rw [fileIssues, Project.readRule_of_holds hx]
  broken := by
    intro h
    obtain ⟨f, -, hr⟩ := Project.readRule_of_not_readable (p := p) hf h
    exact ⟨unreadableIssue f, by rw [fileIssues, hr], rfl⟩

theorem forall₂_rules {ds : List Document} (hf : ∀ d ∈ ds, t.isFile d.place = true) :
    List.Forall₂ (RuleOf t p) (ds.filter fun d => Readable t d)
      (ds.filterMap fun d => (p.readRule t d).toOption) := by
  induction ds with
  | nil => exact List.Forall₂.nil
  | cons d ds ih =>
    have ih := ih fun e he => hf e (List.mem_cons_of_mem d he)
    by_cases h : Readable t d
    · obtain ⟨x, hx⟩ := h
      rw [List.filter_cons_of_pos (by simpa using ⟨x, hx⟩), List.filterMap_cons, Project.readRule_of_holds hx]
      exact List.Forall₂.cons ⟨x, hx, rfl⟩ ih
    · obtain ⟨f, -, hr⟩ := Project.readRule_of_not_readable (p := p) (hf d List.mem_cons_self) h
      rw [List.filter_cons_of_neg (by simpa using h), List.filterMap_cons, hr]
      exact ih

end

/-! ### One document after the other -/

section
variable (limits : LineLimits) (cs : List Check) (t : Tree) (p : Project)

/-- Goes on to one more document. If it cannot be read, its fault is its only issue. -/
def add (s : Survey) (d : Document) : Survey :=
  match p.readRule t d with
  | .ok r => ⟨s.files ++ [⟨p.identifier d, r.issues limits cs⟩], s.rules ++ [r]⟩
  | .error f => ⟨s.files ++ [⟨p.identifier d, [unreadableIssue f]⟩], s.rules⟩

theorem add_eq (s : Survey) (d : Document) : add limits cs t p s d =
    ⟨s.files ++ [fileIssues limits cs t p d], s.rules ++ (p.readRule t d).toOption.toList⟩ := by
  cases hr : p.readRule t d with
  | ok r => simp only [add, fileIssues, hr]; rfl
  | error f => simp only [add, fileIssues, hr, Except.toOption, Option.toList_none, List.append_nil]

theorem foldl_add (ds : List Document) : ∀ s : Survey, ds.foldl (add limits cs t p) s =
    ⟨s.files ++ ds.map (fileIssues limits cs t p), s.rules ++ ds.filterMap fun d => (p.readRule t d).toOption⟩ := by
  induction ds with
  | nil => intro s; simp
  | cons d ds ih =>
    intro s
    rw [List.foldl_cons, ih, add_eq, List.map_cons, List.filterMap_cons]
    cases (p.readRule t d).toOption <;> simp

/-- A survey is what comes of going on from one document to the next. -/
theorem foldl_documents_eq_ofProject :
    (p.documents t).foldl (add limits cs t p) ⟨[], []⟩ = ofProject limits cs t p := by
  rw [foldl_add]; rfl

end

end Survey

/-! ## Mending -/

namespace Mending

theorem rules_foldl_readOne (p : Project) (ds : List Document) : ∀ s : Run × List Rule,
    (ds.foldl (Run.readOne p) s).2 = s.2 ++ ds.filterMap fun d => (p.readRule s.1.tree d).toOption := by
  induction ds with
  | nil => exact fun s => (List.append_nil _).symm
  | cons d ds ih =>
    intro s
    rw [List.foldl_cons, ih, List.filterMap_cons]
    unfold Run.readOne
    cases hr : p.readRule s.1.tree d with
    | error f => simp [Except.toOption]
    | ok r => simp [Except.toOption]

theorem redundancies_compare (s : Run) (p : Project) :
    (s.compare p).done.redundancies = AgentRules.redundancies {} (Survey.readableRules s.tree p) := by
  have hrules := rules_foldl_readOne p (p.documents s.tree) (s.note (.found (p.documents s.tree).length p.path), [])
  show AgentRules.redundancies {} ((p.documents s.tree).foldl (Run.readOne p) _).2 = _
  rw [hrules]; rfl

theorem redundancies_of_none {t : Tree} {p : Project} (h : p.rulesPlace? t = none) :
    AgentRules.redundancies {} (Survey.readableRules t p) = [] := by
  have hfew : (Survey.readableRules t p).length ≤ 1 := by
    refine (List.length_filterMap_le _ _).trans ?_
    rw [Project.documents, Project.modernDocuments_of_none h, List.append_nil]
    unfold Project.legacyDocuments
    split
    · split <;> simp
    · simp
  match hrules : Survey.readableRules t p with
  | [] => rfl
  | [r] => rfl
  | r :: q :: rs =>
    rw [hrules] at hfew
    simp at hfew

theorem redundancies_of_run {o : MendOptions} {t : Tree} {p : Project} {r : Run} (h : run o t p = .ok r) :
    r.done.redundancies = AgentRules.redundancies {} (Survey.readableRules r.tree p) := by
  cases hr : p.rulesPlace? t with
  | none =>
    simp only [run, hr] at h
    rw [← Except.ok.inj h, redundancies_of_none hr]
  | some dir =>
    simp only [run, hr] at h
    generalize (if o.divide = true then _ else _ : Except Run.Stopped Run) = passed at h
    cases passed with
    | error e => cases h
    | ok s => rw [← Except.ok.inj h, redundancies_compare, tree_compare]

end Mending

/-- **The readers agree.** Loading and a survey read a project alike, and the redundancies that any
run of mending reports are those of the rules a survey finds afterwards. -/
theorem readers_agree (limits : LineLimits) (cs : List Check) (t : Tree) (p : Project) :
    ReadAlike limits cs t p ∧ ∀ (o : MendOptions) (r : Mending.Run), Mending.run o t p = .ok r →
      r.done.redundancies = redundancies {} (Survey.ofProject limits cs r.tree p).rules := by
  have hfile : ∀ d ∈ p.documents t, t.isFile d.place = true := fun d hd => Project.isFile_of_mem_documents hd
  refine ⟨⟨Project.exists_refused_iff, ?_, Project.rules_of_readable, ?_, Survey.forall₂_rules hfile⟩, ?_⟩
  · intro before d after hds hb hd
    obtain ⟨f, ht, he⟩ := Project.rules_of_unreadable hds hb hd
    exact ⟨f, ht, he, rfl⟩
  · rw [Survey.ofProject, List.forall₂_map_right_iff, List.forall₂_same]
    exact fun d hd => Survey.fileOf_fileIssues limits cs (hfile d hd)
  · exact fun _ _ h => Mending.redundancies_of_run h

/-- A legacy file, a document that is one byte no character starts with, and one that can be read. -/
def blemished : Tree :=
  ((Tree.empty.plant [".cursorrules"] (.file (Utf8.encode "a".toList))).plant
    [".cursor", "rules", "b.mdc"] (.file [0xff])).plant [".cursor", "rules", "c.mdc"] (.file (Utf8.encode "d".toList))

theorem documents_blemished : Mending.here.documents blemished =
    [Mending.here.document [] .legacy [".cursorrules"]] ++ Mending.here.ruleDocument Project.rulesNames "b.mdc" ::
      [Mending.here.ruleDocument Project.rulesNames "c.mdc"] := by
  cbv

theorem broken_document_is_refused : Mending.here.rules blemished =
    .error ⟨⟨.here, [".cursor", "rules", "b.mdc"]⟩, ⟨0xff, 0, 1, .start⟩⟩ := by
  obtain ⟨f, hf, hrules, -⟩ := (readers_agree {} [] blemished Mending.here).1.first _ _ _ documents_blemished
    (by decide) (by decide)
  have hfault : readText blemished (Mending.here.ruleDocument Project.rulesNames "b.mdc") =
      .error ⟨0xff, 0, 1, .start⟩ := by decide
  rw [hrules, ← Except.error.inj (hfault.symm.trans hf)]; rfl

end AgentRules
