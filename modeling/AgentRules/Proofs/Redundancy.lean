import AgentRules.Proofs.Comparison
import AgentRules.Proofs.Settings

/-!
# Contained rules

A rule whose long lines all stand in another one shares all the lines of the smaller of the two. The part
is one, which is more than every threshold but one, and one is a threshold that settings may have. Main
statement: `contained_reported_iff`.
-/

namespace AgentRules

/-! ## Line sets -/

/-- The lines that are longer than a number once they are trimmed. -/
def lineSet (n : ℤ) (body : Text) : Finset Text :=
  ((Text.rows body).map Text.trim).toFinset.filter fun l => n < l.length

theorem toFinset_longLines (n : ℤ) (body : Text) : (longLines n body).toFinset = lineSet n body := by
  ext l
  simp [longLines, lineSet]

theorem length_longLines (n : ℤ) (body : Text) : (longLines n body).length = (lineSet n body).card := by
  rw [← toFinset_longLines, List.toFinset_card_of_nodup (nodup_longLines n body)]

theorem isEmpty_longLines (n : ℤ) (body : Text) : (longLines n body).isEmpty = true ↔ lineSet n body = ∅ := by
  rw [List.isEmpty_iff_length_eq_zero, length_longLines, Finset.card_eq_zero]

theorem length_shared (n : ℤ) (a b : Text) :
    ((longLines n a).filter (longLines n b).contains).length = (lineSet n a ∩ lineSet n b).card := by
  rw [← List.toFinset_card_of_nodup ((nodup_longLines n a).filter _), ← toFinset_longLines, ← toFinset_longLines]
  congr 1
  ext l
  simp

/-- The part of lines that two bodies share, of the smaller number of lines. -/
def sharedPart (n : ℤ) (a b : Text) : ℚ :=
  mkRat (lineSet n a ∩ lineSet n b).card (min (lineSet n a).card (lineSet n b).card)

theorem Rule.redundancy?_eq (how : Likeness) (a b : Rule) : a.redundancy? how b =
    if lineSet how.minLength a.body = ∅ ∨ lineSet how.minLength b.body = ∅ then none
    else if how.threshold.lt (.ofRat (sharedPart how.minLength a.body b.body)) then
      (((Binary64.ofRat (sharedPart how.minLength a.body b.body)).map (· * 100)).roundHalfUp?).map fun percent =>
        ⟨a.identifier, b.identifier, percent, (lineSet how.minLength a.body ∩ lineSet how.minLength b.body).card⟩
    else none := by
  simp only [Rule.redundancy?, AgentRules.redundancy?, length_shared, length_longLines, sharedPart, Bool.or_eq_true,
    isEmpty_longLines]
  rfl

/-! ## Containment -/

/-- The first body has long lines, and they all stand in the second. -/
structure Contained (n : ℤ) (a b : Text) : Prop where
  nonempty : (lineSet n a).Nonempty
  subset : lineSet n a ⊆ lineSet n b

theorem Contained.nonempty_right {n : ℤ} {a b : Text} (h : Contained n a b) : (lineSet n b).Nonempty :=
  h.nonempty.mono h.subset

section
variable {n : ℤ} {a b : Text} (h : Contained n a b ∨ Contained n b a)
include h

theorem nonempty_of_contained : (lineSet n a).Nonempty ∧ (lineSet n b).Nonempty := by
  rcases h with h | h
  · exact ⟨h.nonempty, h.nonempty_right⟩
  · exact ⟨h.nonempty_right, h.nonempty⟩

theorem card_inter_of_contained :
    (lineSet n a ∩ lineSet n b).card = min (lineSet n a).card (lineSet n b).card := by
  rcases h with h | h
  · rw [Finset.inter_eq_left.mpr h.subset, min_eq_left (Finset.card_le_card h.subset)]
  · rw [Finset.inter_eq_right.mpr h.subset, min_eq_right (Finset.card_le_card h.subset)]

theorem sharedPart_of_contained : sharedPart n a b = 1 := by
  obtain ⟨ha, hb⟩ := nonempty_of_contained h
  have hpos : 0 < min (lineSet n a).card (lineSet n b).card := lt_min ha.card_pos hb.card_pos
  rw [sharedPart, card_inter_of_contained h, Rat.mkRat_eq_div]
  exact div_self (by exact_mod_cast hpos.ne')

end

theorem sharedPart_mem (n : ℤ) (a b : Text) : 0 ≤ sharedPart n a b ∧ sharedPart n a b ≤ 1 := by
  have hle : (lineSet n a ∩ lineSet n b).card ≤ min (lineSet n a).card (lineSet n b).card :=
    le_min (Finset.card_le_card Finset.inter_subset_left) (Finset.card_le_card Finset.inter_subset_right)
  rw [sharedPart, Rat.mkRat_eq_div]
  refine ⟨by positivity, div_le_one_of_le₀ ?_ (by positivity)⟩
  exact_mod_cast hle

/-! ## Thresholds -/

theorem Likeness.InRange.lt_one_iff {how : Likeness} (h : how.InRange) :
    how.threshold.lt (.finite 1) = true ↔ how.threshold ≠ .finite 1 := by
  obtain ⟨q, hq, -, hle⟩ := h.threshold
  rw [hq, Binary64.lt, decide_eq_true_eq, Ne, Binary64.finite.injEq]
  exact ⟨ne_of_lt, lt_of_le_of_ne hle⟩

theorem redundancy?_of_threshold_one {how : Likeness} (h : how.threshold = .finite 1) (a b : Rule) :
    a.redundancy? how b = none := by
  -- The part is at most one before it is rounded, and so it is afterwards.
  obtain ⟨hnonneg, hle⟩ := sharedPart_mem how.minLength a.body b.body
  obtain ⟨x, hx, hpart⟩ := Binary64.ofRat_le_one hnonneg hle
  have hlt : how.threshold.lt (.finite x) = false := by
    rw [h, Binary64.lt, decide_eq_false_iff_not, not_lt]
    exact hx
  rw [Rule.redundancy?_eq, hpart, hlt, if_neg Bool.false_ne_true, ite_self]

theorem redundancies_of_threshold_one {how : Likeness} (h : how.threshold = .finite 1) (rs : List Rule) :
    redundancies how rs = [] := by
  rw [redundancies_eq, List.filterMap_eq_nil_iff]
  exact fun p _ => redundancy?_of_threshold_one h p.1 p.2

theorem redundancy?_of_contained {how : Likeness} (hhow : how.InRange) (hone : how.threshold ≠ .finite 1) {a b : Rule}
    (h : Contained how.minLength a.body b.body ∨ Contained how.minLength b.body a.body) :
    a.redundancy? how b = some ⟨a.identifier, b.identifier, 100,
      min (lineSet how.minLength a.body).card (lineSet how.minLength b.body).card⟩ := by
  obtain ⟨ha, hb⟩ := nonempty_of_contained h
  have hempty : ¬ (lineSet how.minLength a.body = ∅ ∨ lineSet how.minLength b.body = ∅) :=
    not_or.mpr ⟨ha.ne_empty, hb.ne_empty⟩
  have hpercent : ((Binary64.finite 1).map (· * 100)).roundHalfUp? = some 100 := by decide +kernel
  rw [Rule.redundancy?_eq, if_neg hempty, sharedPart_of_contained h, Binary64.ofRat_one,
    if_pos (hhow.lt_one_iff.mpr hone), hpercent, card_inter_of_contained h, Option.map_some]

/-! ## Reports -/

/-- The two positions get this report, between those of the pairs before them and after them. -/
def ReportedAt (how : Likeness) (rs : List Rule) (i j : ℕ) (r : Redundancy) : Prop :=
  ∃ ps qs, pairs (List.range rs.length) = ps ++ (i, j) :: qs ∧ redundancies how rs =
    ps.filterMap (between? (Rule.redundancy? how) rs) ++ r :: qs.filterMap (between? (Rule.redundancy? how) rs)

theorem reportedAt_of_redundancy? {how : Likeness} {rs : List Rule} {i j : ℕ} {a b : Rule} {r : Redundancy}
    (hij : i < j) (ha : rs[i]? = some a) (hb : rs[j]? = some b) (hr : a.redundancy? how b = some r) :
    ReportedAt how rs i j r := by
  have hj : j < rs.length := (List.getElem?_eq_some_iff.mp hb).1
  have hmem : (i, j) ∈ pairs (List.range rs.length) := by
    rw [mem_pairs_iff List.pairwise_lt_range, List.mem_range, List.mem_range]
    exact ⟨hij.trans hj, hj, hij⟩
  have hat : between? (Rule.redundancy? how) rs (i, j) = some r := by
    simp [between?, ha, hb, hr]
  obtain ⟨ps, qs, hpairs⟩ := List.append_of_mem hmem
  refine ⟨ps, qs, hpairs, ?_⟩
  rw [redundancies_eq, filterMap_pairs_eq, hpairs, List.filterMap_append, List.filterMap_cons, hat]

theorem ReportedAt.mem {how : Likeness} {rs : List Rule} {i j : ℕ} {r : Redundancy} (h : ReportedAt how rs i j r) :
    r ∈ redundancies how rs := by
  obtain ⟨ps, qs, -, hreports⟩ := h
  rw [hreports]
  exact List.mem_append_right _ List.mem_cons_self

/-- **Contained rules.** Two rules at different positions, one contained in the other, get a report of their
own that they share all the lines of the smaller one, unless the threshold is one. Then no rules get a
report. -/
theorem contained_reported_iff {how : Likeness} (hhow : how.InRange) {rs : List Rule} {i j : ℕ} {a b : Rule}
    (hij : i < j) (ha : rs[i]? = some a) (hb : rs[j]? = some b)
    (h : Contained how.minLength a.body b.body ∨ Contained how.minLength b.body a.body) :
    (ReportedAt how rs i j ⟨a.identifier, b.identifier, 100,
        min (lineSet how.minLength a.body).card (lineSet how.minLength b.body).card⟩ ↔ how.threshold ≠ .finite 1) ∧
      (how.threshold = .finite 1 → redundancies how rs = []) := by
  refine ⟨⟨?_, ?_⟩, fun hone => redundancies_of_threshold_one hone rs⟩
  · intro hreported hone
    exact List.not_mem_nil (redundancies_of_threshold_one hone rs ▸ hreported.mem)
  · intro hone
    exact reportedAt_of_redundancy? hij ha hb (redundancy?_of_contained hhow hone h)

def shortRule : Rule := ⟨"short", .legacy, "Prefer early returns\n".toList⟩

def longRule : Rule := ⟨"long", .legacy, "# Flow\n\n  Prefer early returns\nAvoid deep nesting\n".toList⟩

/-- A short rule in a long one, with one line in common and the settings of no file. -/
theorem short_rule_is_reported :
    ({} : Likeness).InRange ∧ Contained 10 shortRule.body longRule.body ∧ ({} : Likeness).threshold ≠ .finite 1 ∧
      ⟨"long", "short", 100, 1⟩ ∈ redundancies {} [longRule, shortRule] := by
  have hcontained : Contained 10 shortRule.body longRule.body := ⟨by decide +kernel, by decide +kernel⟩
  have hone : ({} : Likeness).threshold ≠ .finite 1 := by decide +kernel
  have hcard : min (lineSet 10 longRule.body).card (lineSet 10 shortRule.body).card = 1 := by decide +kernel
  have hlong : [longRule, shortRule][0]? = some longRule := rfl
  have hshort : [longRule, shortRule][1]? = some shortRule := rfl
  have hreported := (contained_reported_iff Settings.inRange_default.likeness Nat.zero_lt_one hlong hshort
    (.inr hcontained)).1.mpr hone
  rw [hcard] at hreported
  exact ⟨Settings.inRange_default.likeness, hcontained, hone, hreported.mem⟩

/-- A threshold of one is read from a table, and under it two rules with the same lines get no report. -/
theorem full_threshold_reports_nothing :
    (∃ s, Settings.ofTable ⟨.here, []⟩ [("redundancy".toList, .table [("threshold".toList, .int 1)])] = .ok s ∧
      s.likeness = ⟨.finite 1, 10⟩) ∧
    (⟨.finite 1, 10⟩ : Likeness).InRange ∧ Contained 10 shortRule.body shortRule.body ∧
    redundancies ⟨.finite 1, 10⟩ [shortRule, shortRule] = [] := by
  have hrange : (⟨.finite 1, 10⟩ : Likeness).InRange := ⟨⟨1, rfl, one_pos, le_refl 1⟩, by decide⟩
  have hone : Settings.IsNumber (.int 1) (.finite 1) := .inr ⟨1, rfl, by decide +kernel⟩
  have hread : Settings.ofTable ⟨.here, []⟩ [("redundancy".toList, .table [("threshold".toList, .int 1)])] =
      .ok { likeness := ⟨.finite 1, 10⟩, source := some ⟨.here, []⟩ } :=
    Settings.ofTable_eq_ok_iff.mpr ⟨⟨[], [], _, ⟨.omitted, .omitted, .given rfl⟩, ⟨.omitted, .omitted, .omitted,
      ⟨none, .omitted, rfl⟩, .omitted, .omitted, .given hone, .omitted, rfl⟩⟩,
      Settings.inRange_default.limits, hrange⟩
  exact ⟨⟨_, hread, rfl⟩, hrange, ⟨by decide +kernel, by decide +kernel⟩, by decide +kernel⟩

end AgentRules
