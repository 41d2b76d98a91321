import AgentRules.Report
import AgentRules.Proofs.Number.Rounding

/-!
# Adding up measurements

The measurements of a project earn parts of fixed points. A share of points is divided, scaled and rounded
with a rounding after each step; all of them keep the order, and so do the grades. So a report can always be
made, and measurements that earn more make a report that is no worse. Main statement:
`exists_ofMeasures_noWorse`.
-/

namespace AgentRules

/-! ## Measures -/

namespace Measure

def earnedIn (ms : List Measure) : ℤ := ms.foldr (fun m n => m.earned + n) 0

def pointsIn (ms : List Measure) : ℤ := ms.foldr (fun m n => m.points + n) 0

/-- A measure has this name and these points, and earns between none and all of them. -/
structure Fits (part : String × ℤ) (m : Measure) : Prop where
  name : m.name = part.1
  points : m.points = part.2
  nonneg : 0 ≤ m.earned
  le : m.earned ≤ m.points

section
variable {parts : List (String × ℤ)} {ms : List Measure} (h : List.Forall₂ Fits parts ms)
include h

theorem pointsIn_of_fits : pointsIn ms = (parts.map (·.2)).sum := by
  induction h with
  | nil => rfl
  | cons hm _ ih => rw [List.map_cons, List.sum_cons, ← hm.points, ← ih]; rfl

theorem earnedIn_of_fits : 0 ≤ earnedIn ms ∧ earnedIn ms ≤ pointsIn ms := by
  induction h with
  | nil => exact ⟨le_refl 0, le_refl 0⟩
  | cons hm _ ih => exact ⟨add_nonneg hm.nonneg ih.1, add_le_add hm.le ih.2⟩

end

end Measure

/-! ## Grades -/

namespace Grade

/-- The number of steps from the worst grade. -/
def rank : Grade → ℕ
  | .f => 0
  | .d => 1
  | .c => 2
  | .b => 3
  | .a => 4

theorem rank_ofPercentage (x : ℚ) :
    (ofPercentage (.finite x)).rank = ([40, 60, 75, 90] : List ℚ).countP (· ≤ x) := by
  simp only [ofPercentage, Binary64.finite_le_iff, Nat.cast_ofNat, List.countP_cons, List.countP_nil, decide_eq_true_eq]
  grind [rank]

theorem rank_mono {x y : ℚ} (h : x ≤ y) : (ofPercentage (.finite x)).rank ≤ (ofPercentage (.finite y)).rank := by
  rw [rank_ofPercentage, rank_ofPercentage]
  apply List.countP_mono_left
  intro n _ hn
  rw [decide_eq_true_eq] at hn ⊢
  exact hn.trans h

end Grade

namespace Report
open AgentRules.Measure

/-! ## Shares -/

theorem share_eq_ok_iff {score points : ℤ} (h : points ≠ 0) {x : ℚ} : share score points = .ok (.finite x) ↔
    ∃ z, Binary64.ofRat (score / points) = .finite z ∧ Binary64.ofRat (z * 100) = .finite x := by
  rw [share, if_neg h, Binary64.ofQuotient?]
  cases Binary64.ofRat ((score : ℚ) / points) <;> simp [Binary64.map]

section
variable {score points : ℤ} (h₀ : 0 ≤ score) (hpos : 0 < points)
include h₀ hpos

/-- A score within its points has a percentage, which can be rounded. -/
theorem exists_share (h : score ≤ points) :
    ∃ x n, 0 ≤ x ∧ share score points = .ok (.finite x) ∧ (Binary64.finite x).roundHalfUp? = some n := by
  have hposq : (0 : ℚ) < points := by exact_mod_cast hpos
  have hq₀ : (0 : ℚ) ≤ score / points := div_nonneg (by exact_mod_cast h₀) hposq.le
  have hq₁ : (score : ℚ) / points ≤ 1 := (div_le_one hposq).mpr (by exact_mod_cast h)
  obtain ⟨z, hz₁, hz⟩ := Binary64.ofRat_le_one hq₀ hq₁
  have hz₀ := Binary64.ofRat_nonneg hq₀ hz
  obtain ⟨x, hx⟩ : ∃ x, Binary64.ofRat (z * 100) = .finite x :=
    Binary64.exists_ofRat_of_le (by positivity) (by linarith only [hz₁])
  have hx₀ := Binary64.ofRat_nonneg (by positivity) hx
  have hhundred : Binary64.ofRat 100 = .finite 100 := by decide +kernel
  have hx₁ : x ≤ 100 := Binary64.ofRat_mono (by positivity) (by linarith only [hz₁]) hx hhundred
  obtain ⟨w, hw⟩ : ∃ w, Binary64.ofRat (x + 1 / 2) = .finite w :=
    Binary64.exists_ofRat_of_le (by positivity) (by linarith only [hx₁])
  exact ⟨x, w.floor, hx₀, (share_eq_ok_iff hpos.ne').mpr ⟨z, hz, hx⟩,
    Binary64.roundHalfUp?_eq_some_iff.mpr ⟨w, hw, rfl⟩⟩

theorem share_mono {more : ℤ} (h : score ≤ more) {x y : ℚ} (hx : share score points = .ok (.finite x))
    (hy : share more points = .ok (.finite y)) : x ≤ y := by
  obtain ⟨z, hz, hx⟩ := (share_eq_ok_iff hpos.ne').mp hx
  obtain ⟨w, hw, hy⟩ := (share_eq_ok_iff hpos.ne').mp hy
  have hposq : (0 : ℚ) < points := by exact_mod_cast hpos
  have hq₀ : (0 : ℚ) ≤ score / points := div_nonneg (by exact_mod_cast h₀) hposq.le
  have hq : (score : ℚ) / points ≤ more / points := by gcongr
  have hz₀ := Binary64.ofRat_nonneg hq₀ hz
  have hzw : z ≤ w := Binary64.ofRat_mono hq₀ hq hz hw
  exact Binary64.ofRat_mono (by positivity) (by gcongr) hx hy

end

/-! ## Adding up -/

theorem ofMeasures_eq_ok {ms : List Measure} {x : Binary64} {n : ℤ} (hx : share (earnedIn ms) (pointsIn ms) = .ok x)
    (hn : x.roundHalfUp? = some n) (hearned : isLongInteger (earnedIn ms) = false)
    (hpoints : isLongInteger (pointsIn ms) = false) :
    ofMeasures ms = .ok ⟨ms, earnedIn ms, pointsIn ms, Grade.ofPercentage x, n⟩ := by
  unfold earnedIn pointsIn at *
  simp only [ofMeasures, hx, hn, hearned, hpoints]
  rfl

theorem isLongInteger_of_le {m n : ℤ} (h₀ : 0 ≤ m) (h : m ≤ n) (hn : isLongInteger n = false) :
    isLongInteger m = false := by
  rw [isLongInteger, decide_eq_false_iff_not, not_le] at hn ⊢
  omega

/-- The second report is about the same points, and nothing that the first one adds up is more. -/
structure NoWorse (r q : Report) : Prop where
  points : q.points = r.points
  score : r.score ≤ q.score
  percentage : r.percentage ≤ q.percentage
  grade : r.grade.rank ≤ q.grade.rank

/-- **Earning more.** Of two lists of measurements that fit the same parts both make a report, and the one
that earns more makes the better one. -/
theorem exists_ofMeasures_noWorse {parts : List (String × ℤ)} (hpos : 0 < (parts.map (·.2)).sum)
    (hshort : isLongInteger (parts.map (·.2)).sum = false) {ms ns : List Measure}
    (hms : List.Forall₂ Fits parts ms) (hns : List.Forall₂ Fits parts ns) (hearned : earnedIn ms ≤ earnedIn ns) :
    ∃ r q, ofMeasures ms = .ok r ∧ ofMeasures ns = .ok q ∧ r.measures = ms ∧ q.measures = ns ∧
      r.points = (parts.map (·.2)).sum ∧ NoWorse r q := by
  obtain ⟨hm₀, hm₁⟩ := earnedIn_of_fits hms
  obtain ⟨hn₀, hn₁⟩ := earnedIn_of_fits hns
  rw [← pointsIn_of_fits hms] at hpos hshort ⊢
  have hpoints : pointsIn ns = pointsIn ms := (pointsIn_of_fits hns).trans (pointsIn_of_fits hms).symm
  rw [hpoints] at hn₁
  obtain ⟨x, m, hx₀, hx, hm⟩ := exists_share hm₀ hpos hm₁
  obtain ⟨y, n, -, hy, hn⟩ := exists_share hn₀ hpos hn₁
  have hxy := share_mono hm₀ hpos hearned hx hy
  have hr := ofMeasures_eq_ok hx hm (isLongInteger_of_le hm₀ hm₁ hshort) hshort
  have hlong := isLongInteger_of_le hn₀ hn₁ hshort
  rw [← hpoints] at hy hshort
  exact ⟨_, _, hr, ofMeasures_eq_ok hy hn hlong hshort, rfl, rfl, rfl, hpoints, hearned,
    Binary64.roundHalfUp?_mono hx₀ hxy hm hn, Grade.rank_mono hxy⟩

/-! ## Measurements -/

/-- What is measured, with the points that there are for it. -/
def parts : List (String × ℤ) :=
  [("Rules exist", 20), ("No legacy .cursorrules", 10), ("Lint checks", 30), ("Token budget", 15), ("Coverage", 15),
    ("Agent skills", 10)]

theorem sum_parts : (parts.map (·.2)).sum = 100 := by decide

theorem fits_existence (modern legacy : Bool) : Fits ("Rules exist", 20) (existence modern legacy) := by
  cases modern <;> cases legacy <;> exact ⟨rfl, rfl, by decide, by decide⟩

theorem fits_freshness (modern legacy : Bool) : Fits ("No legacy .cursorrules", 10) (freshness modern legacy) := by
  cases modern <;> cases legacy <;> exact ⟨rfl, rfl, by decide, by decide⟩

theorem earned_cleanness (errors warnings : ℕ) : (cleanness errors warnings).earned =
    if errors = 0 then if warnings = 0 then 30 else 20 else ((10 - errors * 2 : ℕ) : ℤ) := by
  unfold cleanness
  split_ifs <;> grind

theorem fits_cleanness (errors warnings : ℕ) : Fits ("Lint checks", 30) (cleanness errors warnings) := by
  have hname : (cleanness errors warnings).name = "Lint checks" := by unfold cleanness; split_ifs <;> rfl
  have hpoints : (cleanness errors warnings).points = 30 := by unfold cleanness; split_ifs <;> rfl
  refine ⟨hname, hpoints, ?_, ?_⟩
  · rw [earned_cleanness]
    split_ifs <;> omega
  · rw [hpoints, earned_cleanness]
    split_ifs <;> omega

theorem fits_weight (tokens : ℕ) : Fits ("Token budget", 15) (weight tokens) := by
  unfold weight
  split_ifs <;> exact ⟨rfl, rfl, by simp, by simp⟩

theorem fits_coverage (gaps : List Gap) : Fits ("Coverage", 15) (coverage gaps) := by
  unfold coverage
  split_ifs <;> exact ⟨rfl, rfl, by simp, by simp⟩

theorem fits_skills (found : Bool) : Fits ("Agent skills", 10) (skills found) := by
  cases found <;> exact ⟨rfl, rfl, by decide, by decide⟩

theorem cleanness_mono {errors warnings fewerErrors fewerWarnings : ℕ} (he : fewerErrors ≤ errors)
    (hw : fewerWarnings ≤ warnings) :
    (cleanness errors warnings).earned ≤ (cleanness fewerErrors fewerWarnings).earned := by
  rw [earned_cleanness, earned_cleanness]
  split_ifs <;> omega

section
variable {t : Tree} {p : Project} {gaps : List Gap}

theorem fits_measurements (s : Survey) : List.Forall₂ Fits parts (measurements t p gaps s) :=
  .cons (fits_existence _ _) <| .cons (fits_freshness _ _) <| .cons (fits_cleanness _ _) <| .cons (fits_weight _) <|
    .cons (fits_coverage _) <| .cons (fits_skills _) .nil

theorem filter_name_measurements (s : Survey) : (measurements t p gaps s).filter (·.name = "Token budget") =
    [weight (s.rules.foldr (fun r n => tokens r.text + n) 0)] := by
  simp [measurements, (fits_existence _ _).name, (fits_freshness _ _).name, (fits_cleanness _ _).name,
    (fits_weight _).name, (fits_coverage _).name, (fits_skills _).name]

/-! ## Projects -/

theorem ofProject_eq_ok {settings : Settings} {cs : List Check} {r : Report} (hcs : settings.selection.checks = .ok cs)
    (hr : ofMeasures (measurements t p gaps (Survey.ofProject settings.limits cs t p)) = .ok r) :
    ofProject settings gaps t p = .ok r := by
  simp only [ofProject, hcs, hr]
  rfl

theorem exists_ofProject_noWorse (settings other : Settings) {cs ds : List Check}
    (hcs : settings.selection.checks = .ok cs) (hds : other.selection.checks = .ok ds)
    (hearned : earnedIn (measurements t p gaps (Survey.ofProject settings.limits cs t p)) ≤
      earnedIn (measurements t p gaps (Survey.ofProject other.limits ds t p))) :
    ∃ r q, ofProject settings gaps t p = .ok r ∧ ofProject other gaps t p = .ok q ∧
      r.measures = measurements t p gaps (Survey.ofProject settings.limits cs t p) ∧
      q.measures = measurements t p gaps (Survey.ofProject other.limits ds t p) ∧ r.points = 100 ∧ NoWorse r q := by
  have hpos : 0 < (parts.map (·.2)).sum := by decide
  have hshort : isLongInteger (parts.map (·.2)).sum = false := by decide +kernel
  obtain ⟨r, q, hr, hq, hrm, hqm, hpoints, hnoWorse⟩ :=
    exists_ofMeasures_noWorse hpos hshort (fits_measurements _) (fits_measurements _) hearned
  exact ⟨r, q, ofProject_eq_ok hcs hr, ofProject_eq_ok hds hq, hrm, hqm, hpoints.trans sum_parts, hnoWorse⟩

end

/-- A project can be reported on under every selection of checks that exist. -/
theorem exists_ofProject {settings : Settings} {cs : List Check} (hcs : settings.selection.checks = .ok cs)
    (gaps : List Gap) (t : Tree) (p : Project) : ∃ r, ofProject settings gaps t p = .ok r ∧
      r.measures = measurements t p gaps (Survey.ofProject settings.limits cs t p) := by
  obtain ⟨r, -, hr, -, hrm, -⟩ := exists_ofProject_noWorse settings settings hcs hcs (le_refl _)
  exact ⟨r, hr, hrm⟩

end Report
end AgentRules
