import AgentRules.Proofs.Mending.Outcome
import AgentRules.Proofs.Report

/-!
# Reports under fewer checks

The same project is reported on twice, the second time with some of the checks of the first. Every document
keeps some of its issues in their order, so there are no more errors and no more warnings, and of the
measurements only the one that counts issues changes. Main statement: `fewer_checks_never_hurt`.
-/

namespace AgentRules

/-! ## Selections -/

theorem Check.mem_all (c : Check) : c ∈ all := by cases c <;> decide

namespace Selection

/-- Every id that is asked for or turned off is that of a check. -/
def IsKnown (s : Selection) : Prop := ∀ i ∈ s.enable.getD [] ++ s.disable, ∃ c : Check, c.id = i

/-- The check is asked for, unless all are, and it is not turned off. -/
def IsActive (s : Selection) (c : Check) : Prop := (∀ ids, s.enable = some ids → c.id ∈ ids) ∧ c.id ∉ s.disable

section
variable {s : Selection}

theorem mem_unknown_iff {i : String} : i ∈ s.unknown ↔ i ∈ s.enable.getD [] ++ s.disable ∧ ∀ c : Check, c.id ≠ i := by
  rw [unknown, (sortNames_perm _).mem_iff, List.mem_eraseDups, List.mem_filter]
  simp [Check.mem_all]

theorem checks_of_isKnown (h : s.IsKnown) : s.checks = .ok (Check.all.filter s.wants) := by
  have hnone : s.unknown = [] := by
    rw [List.eq_nil_iff_forall_not_mem]
    intro i hi
    obtain ⟨hasked, hno⟩ := mem_unknown_iff.mp hi
    obtain ⟨c, hc⟩ := h i hasked
    exact hno c hc
  rw [checks, hnone]; rfl

theorem wants_eq_true_iff {c : Check} : s.wants c = true ↔ s.IsActive c := by
  unfold wants IsActive
  cases s.enable <;> simp

/-- Checks are run in one order, whatever the order in which they are asked for. -/
theorem sublist_filter_wants {fewer : Selection} (h : ∀ c, fewer.IsActive c → s.IsActive c) :
    (Check.all.filter fewer.wants).Sublist (Check.all.filter s.wants) := by
  apply List.monotone_filter_right
  intro c hc
  exact wants_eq_true_iff.mpr (h c (wants_eq_true_iff.mp hc))

end

end Selection

/-! ## Issues -/

/-- The same file with some of its issues, in their order. -/
structure FileIssues.Within (f g : FileIssues) : Prop where
  identifier : f.identifier = g.identifier
  issues : f.issues.Sublist g.issues

namespace Survey

theorem count_le_count (v : Severity) {fs gs : List FileIssues} (h : List.Forall₂ FileIssues.Within fs gs) :
    fs.foldr (fun f n => f.count v + n) 0 ≤ gs.foldr (fun f n => f.count v + n) 0 := by
  induction h with
  | nil => exact le_refl 0
  | cons hfile _ ih => exact Nat.add_le_add hfile.issues.countP_le ih

section
variable {limits : LineLimits} {cs ds : List Check} {t : Tree} {p : Project} (h : ds.Sublist cs)
include h

theorem within_fileIssues (d : Project.Document) :
    (fileIssues limits ds t p d).Within (fileIssues limits cs t p d) := by
  unfold fileIssues
  cases p.readRule t d with
  | ok r => exact ⟨rfl, h.flatMap _⟩
  | error f => exact ⟨rfl, List.Sublist.refl _⟩

theorem forall₂_within :
    List.Forall₂ FileIssues.Within (ofProject limits ds t p).files (ofProject limits cs t p).files := by
  rw [ofProject, ofProject, List.forall₂_map_left_iff, List.forall₂_map_right_iff, List.forall₂_same]
  exact fun d _ => within_fileIssues h d

theorem errors_le : (ofProject limits ds t p).errors ≤ (ofProject limits cs t p).errors :=
  count_le_count .error (forall₂_within h)

theorem warnings_le : (ofProject limits ds t p).warnings ≤ (ofProject limits cs t p).warnings :=
  count_le_count .warning (forall₂_within h)

end

end Survey

/-! ## Reports -/

namespace Report
open AgentRules.Measure

/-- One measurement made twice, with one result unless it is the one that counts issues. -/
structure AlikeButLint (m n : Measure) : Prop where
  name : m.name = n.name
  eq : m.name ≠ "Lint checks" → m = n

theorem AlikeButLint.refl (m : Measure) : AlikeButLint m m := ⟨rfl, fun _ => rfl⟩

section
variable {t : Tree} {p : Project} {gaps : List Gap}

theorem forall₂_alikeButLint {s u : Survey} (h : s.rules = u.rules) :
    List.Forall₂ AlikeButLint (measurements t p gaps s) (measurements t p gaps u) := by
  have hs := (fits_cleanness s.errors s.warnings).name
  have hu := (fits_cleanness u.errors u.warnings).name
  have hlint : AlikeButLint (cleanness s.errors s.warnings) (cleanness u.errors u.warnings) :=
    ⟨hs.trans hu.symm, fun hne => absurd hs hne⟩
  unfold measurements
  rw [h]
  exact .cons (.refl _) <| .cons (.refl _) <| .cons hlint <| .cons (.refl _) <| .cons (.refl _) <|
    .cons (.refl _) .nil

theorem earnedIn_mono {s u : Survey} (h : s.rules = u.rules) (herrors : u.errors ≤ s.errors)
    (hwarnings : u.warnings ≤ s.warnings) :
    earnedIn (measurements t p gaps s) ≤ earnedIn (measurements t p gaps u) := by
  unfold measurements earnedIn
  rw [h]
  simp only [List.foldr_cons, List.foldr_nil]
  gcongr
  exact cleanness_mono herrors hwarnings

end

end Report

/-- **Fewer checks never hurt.** Of two selections of checks that exist, one of them with some of the checks
of the other, both make a report. The one with fewer checks is no worse, all measurements but the one that
counts issues are the same, and every file has some of the same issues in the same order. -/
theorem fewer_checks_never_hurt (settings : Settings) (fewer : Selection) (gaps : List Gap) (t : Tree) (p : Project)
    (hknown : settings.selection.IsKnown) (hfewer : fewer.IsKnown)
    (hactive : ∀ c, fewer.IsActive c → settings.selection.IsActive c) :
    ∃ cs ds r q, settings.selection.checks = .ok cs ∧ fewer.checks = .ok ds ∧
      Report.ofProject settings gaps t p = .ok r ∧
      Report.ofProject { settings with selection := fewer } gaps t p = .ok q ∧
      r.points = 100 ∧ Report.NoWorse r q ∧ List.Forall₂ Report.AlikeButLint r.measures q.measures ∧
      List.Forall₂ FileIssues.Within (Survey.ofProject settings.limits ds t p).files
        (Survey.ofProject settings.limits cs t p).files := by
  have hcs := Selection.checks_of_isKnown hknown
  have hds := Selection.checks_of_isKnown hfewer
  have hsub := Selection.sublist_filter_wants hactive
  -- Which rules can be read does not hang on the checks.
  have hrules (cs ds : List Check) :
      (Survey.ofProject settings.limits cs t p).rules = (Survey.ofProject settings.limits ds t p).rules := rfl
  obtain ⟨r, q, hr, hq, hrm, hqm, hpoints, hnoWorse⟩ :=
    Report.exists_ofProject_noWorse settings { settings with selection := fewer } hcs hds
      (Report.earnedIn_mono (hrules _ _) (Survey.errors_le hsub) (Survey.warnings_le hsub))
  refine ⟨_, _, r, q, hcs, hds, hr, hq, hpoints, hnoWorse, ?_, Survey.forall₂_within hsub⟩
  rw [hrm, hqm]
  exact Report.forall₂_alikeButLint (hrules _ _)

/-! ## A project that gains -/

/-- A legacy file, and a document without a header that says nothing an agent can act on. -/
def careless : Tree :=
  (Tree.empty.plant [".cursorrules"] (.file (Utf8.encode "a".toList))).plant
    [".cursor", "rules", "b.mdc"] (.file (Utf8.encode "be careful".toList))

def lengthOnly : Selection := { enable := some ["file_length"] }

theorem documents_careless : Mending.here.documents careless =
    [Mending.here.document [] .legacy [".cursorrules"], Mending.here.ruleDocument Project.rulesNames "b.mdc"] := by
  cbv

theorem isKnown_default : ({} : Selection).IsKnown := fun _ h => absurd h List.not_mem_nil

theorem isKnown_lengthOnly : lengthOnly.IsKnown := by
  intro i hi
  rw [List.mem_singleton.mp hi]
  exact ⟨.length, rfl⟩

theorem scores_careless :
    (Report.ofProject {} [] careless Mending.here).toOption.map (·.score) = some 68 ∧
      (Report.ofProject { selection := lengthOnly } [] careless Mending.here).toOption.map (·.score) = some 90 := by
  simp only [Report.ofProject, Selection.checks_of_isKnown isKnown_default,
    Selection.checks_of_isKnown isKnown_lengthOnly, Report.measurements, Survey.ofProject, Survey.readableRules,
    documents_careless]
  exact ⟨by decide +kernel, by decide +kernel⟩

/-- With the check of the length alone, an error and two warnings are gone. -/
theorem careless_project_gains : ({} : Selection).IsKnown ∧ lengthOnly.IsKnown ∧
    (∀ c, lengthOnly.IsActive c → ({} : Selection).IsActive c) ∧
    ∃ r q, Report.ofProject {} [] careless Mending.here = .ok r ∧
      Report.ofProject { selection := lengthOnly } [] careless Mending.here = .ok q ∧
      Report.NoWorse r q ∧ r.score = 68 ∧ q.score = 90 := by
  have hactive : ∀ c, lengthOnly.IsActive c → ({} : Selection).IsActive c := fun _ _ => ⟨nofun, List.not_mem_nil⟩
  obtain ⟨_, _, r, q, -, -, hr, hq, -, hnoWorse, -⟩ :=
    fewer_checks_never_hurt {} lengthOnly [] careless Mending.here isKnown_default isKnown_lengthOnly hactive
  have hscores := scores_careless
  rw [hr, hq] at hscores
  exact ⟨isKnown_default, isKnown_lengthOnly, hactive, r, q, hr, hq, hnoWorse, Option.some.inj hscores.1,
    Option.some.inj hscores.2⟩

end AgentRules
