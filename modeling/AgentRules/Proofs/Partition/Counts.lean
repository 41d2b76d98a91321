import Mathlib
import AgentRules.Proofs.Partition

/-!
# Cutting what was put together

Sections that stand in a body one after another, or paragraphs of a body, are put together with line
feeds between them. When the result is cut again, it comes to as many pieces. For sections this can be
read off the rows that are not blank: each row that opens a section makes one, and so does the first.
Main statements: `length_sections`, `length_sections_join` and `length_paragraphs_join`.
-/

namespace AgentRules

namespace Text

theorem inkedRows_eq_nil_iff {t : Text} : inkedRows t = [] ↔ allBlank t = true := by
  refine ⟨fun h => ?_, inkedRows_of_allBlank⟩
  unfold inkedRows at h
  rw [List.filter_eq_nil_iff] at h
  unfold allBlank
  rw [List.all_eq_true]
  intro c hc
  rw [← join_fields '\n' t] at hc
  rcases mem_join hc with hc | ⟨r, hr, hc⟩
  · rw [List.mem_singleton.mp hc]
    decide
  · have hrow : allBlank r = true := by simpa using h r hr
    exact List.all_eq_true.mp hrow c hc

theorem allBlank_join {m t : Text} {ts : List Text} (ht : t ∈ ts) (h : allBlank t = false) :
    allBlank (join m ts) = false := by
  by_contra hb
  have hblank := allBlank_of_isInfix (infix_join (m := m) ht) (by simpa using hb)
  simp [h] at hblank

/-- Blanks at the front of a text do not matter. -/
theorem allBlank_append {a : Text} (ha : allBlank a = true) (t : Text) : allBlank (a ++ t) = allBlank t := by
  unfold allBlank at *
  simp [ha]

end Text

namespace Partition

open Text (allBlank inkedRows rows)

/-! ## Rows that open sections -/

def opens (r : Text) : Bool := mark.isPrefixOf r

theorem opens_iff {r : Text} : opens r = true ↔ mark <+: r := List.isPrefixOf_iff_prefix

/-- The number of sections that some rows make, none of which is blank. -/
def sectionCount : List Text → Nat
  | [] => 0
  | _ :: rs => 1 + rs.countP opens

theorem sectionCount_append {as : List Text} (h : as ≠ []) (bs : List Text) :
    sectionCount (as ++ bs) = sectionCount as + bs.countP opens := by
  cases as with
  | nil => exact absurd rfl h
  | cons a as => simp only [List.cons_append, sectionCount, List.countP_append, Nat.add_assoc]

theorem sectionCount_le (rs : List Text) : sectionCount rs ≤ 1 + rs.countP opens := by
  cases rs with
  | nil => simp [sectionCount]
  | cons r rs =>
    simp only [sectionCount, List.countP_cons]
    omega

theorem sectionCount_append_left (as bs : List Text) : sectionCount as ≤ sectionCount (as ++ bs) := by
  cases as with
  | nil => simp [sectionCount]
  | cons a as =>
    rw [sectionCount_append (by simp)]
    omega

theorem sectionCount_append_right (as bs : List Text) : sectionCount bs ≤ sectionCount (as ++ bs) := by
  cases as with
  | nil => simp
  | cons a as =>
    have hone : 1 ≤ sectionCount (a :: as) := by simp [sectionCount]
    have hle := sectionCount_le bs
    rw [sectionCount_append (by simp)]
    omega

/-! ## Sections -/

/-- No cut is made within a row that has begun. -/
theorem prefix_cutSections {w : Text} (hw : '\n' ∉ w) : ∀ {t l : Text} {ls : List Text}, w <+: t →
    cutSections false t = l :: ls → w <+: l := by
  induction w with
  | nil => intro t l ls _ _; exact List.nil_prefix
  | cons c w ih =>
    intro t l ls ht hcut
    rw [List.mem_cons, not_or] at hw
    obtain ⟨r, rfl⟩ := ht
    obtain ⟨k, ks, hk⟩ := List.exists_cons_of_ne_nil (cutSections_ne_nil false (w ++ r))
    have hc : decide (c = '\n') = false := by simp [Ne.symm hw.1]
    simp only [List.cons_append, cutSections, hc, Bool.false_and, Bool.false_eq_true, ite_false, hk, Text.push,
      List.cons.injEq] at hcut
    rw [← hcut.1]
    exact List.cons_prefix_cons.mpr ⟨rfl, ih hw.2 (List.prefix_append w r) hk⟩

/-- The first piece goes on with the row that has begun; if none has, it opens no section. -/
structure FirstPiece (start : Bool) (t l : Text) : Prop where
  isPrefix : l <+: t
  unopened : start = true → ¬ mark <+: l
  inner : ¬ '\n' :: mark <:+: l

/-- A cut comes before each row that opens a section, and nowhere else. -/
theorem exists_cutSections (t : Text) : ∀ start : Bool, ∃ l ls, cutSections start t = l :: ls ∧
    FirstPiece start t l ∧ ∀ s ∈ ls, mark <+: s ∧ ¬ '\n' :: mark <:+: s := by
  induction t with
  | nil =>
    intro start
    exact ⟨[], [], rfl, ⟨List.nil_prefix, fun _ => by decide, by decide⟩, by simp⟩
  | cons c r ih =>
    intro start
    obtain ⟨l, ls, hcut, hl, hls⟩ := ih (decide (c = '\n'))
    have hpush : Text.push c (cutSections (decide (c = '\n')) r) = (c :: l) :: ls := by rw [hcut]; rfl
    have hfirst : c :: l <+: c :: r := List.cons_prefix_cons.mpr ⟨rfl, hl.isPrefix⟩
    -- A row of the first piece starts where a row of the text does.
    have hinner : ¬ '\n' :: mark <:+: c :: l := by
      rw [List.infix_cons_iff, List.cons_prefix_cons]
      rintro (⟨hc, hm⟩ | h)
      · exact hl.unopened (by simp [hc.symm]) hm
      · exact hl.inner h
    unfold cutSections
    simp only [hpush]
    split
    · next hopen =>
      rw [Bool.and_eq_true] at hopen
      obtain ⟨hc, hm⟩ := List.cons_prefix_cons.mp (opens_iff.mp hopen.2)
      refine ⟨[], _, rfl, ⟨List.nil_prefix, fun _ => by decide, by decide⟩, ?_⟩
      intro s hs
      rcases List.mem_cons.mp hs with rfl | hs
      · subst hc
        exact ⟨List.cons_prefix_cons.mpr ⟨rfl, prefix_cutSections (by decide) hm hcut⟩, hinner⟩
      · exact hls s hs
    · next hopen =>
      refine ⟨_, ls, rfl, ⟨hfirst, fun hs hm => hopen ?_, hinner⟩, hls⟩
      rw [Bool.and_eq_true]
      exact ⟨hs, opens_iff.mpr (hm.trans hfirst)⟩

/-- Rows in the middle of a piece open no section. -/
theorem not_opens_of_mem_tail {s r : Text} (h : ¬ '\n' :: mark <:+: s) (hr : r ∈ (rows s).tail) : opens r = false := by
  rw [Text.infix_newline_iff (by decide)] at h
  by_contra ho
  exact h ⟨r, hr, opens_iff.mp (by simpa using ho)⟩

theorem countP_opens_inner {s l : Text} {ls : List Text} (h : ¬ '\n' :: mark <:+: s) (hl : rows s = l :: ls) :
    (ls.filter (!allBlank ·)).countP opens = 0 := by
  rw [List.countP_eq_zero]
  intro r hr
  have hmem : r ∈ (rows s).tail := by
    rw [hl]
    exact List.mem_of_mem_filter hr
  simp [not_opens_of_mem_tail h hmem]

/-- A piece that starts with a mark is a section. -/
theorem count_of_opened {s : Text} (hm : mark <+: s) (h : ¬ '\n' :: mark <:+: s) :
    sectionCount (inkedRows s) = 1 ∧ (inkedRows s).countP opens = 1 := by
  obtain ⟨l, ls, hl⟩ := List.exists_cons_of_ne_nil (Text.rows_ne_nil s)
  have hopen : mark <+: l := by
    have hhead := (Text.prefix_head_rows (by decide) s).mp hm
    rwa [hl] at hhead
  have hink : allBlank l = false := by
    obtain ⟨r, rfl⟩ := hopen
    rfl
  have hrest := countP_opens_inner h hl
  have hrows : inkedRows s = l :: ls.filter (!allBlank ·) := by
    rw [inkedRows, hl, List.filter_cons_of_pos (by simp [hink])]
  rw [hrows, sectionCount, List.countP_cons, hrest, opens_iff.mpr hopen]
  exact ⟨rfl, rfl⟩

/-- What stands before all sections counts as one if it is not blank. -/
theorem count_of_unopened {s : Text} (hm : ¬ mark <+: s) (h : ¬ '\n' :: mark <:+: s) (hs : allBlank s = false) :
    sectionCount (inkedRows s) = 1 := by
  have hnone : (inkedRows s).countP opens = 0 := by
    rw [List.countP_eq_zero]
    intro r hr
    have hmem : r ∈ rows s := List.mem_of_mem_filter hr
    obtain ⟨l, ls, hl⟩ := List.exists_cons_of_ne_nil (Text.rows_ne_nil s)
    rw [hl] at hmem
    rcases List.mem_cons.mp hmem with rfl | hmem
    · rw [Text.prefix_head_rows (by decide), hl] at hm
      exact fun ho => hm (opens_iff.mp ho)
    · have htail : r ∈ (rows s).tail := by rw [hl]; exact hmem
      simp [not_opens_of_mem_tail h htail]
  have hne : inkedRows s ≠ [] := fun h => by
    rw [Text.inkedRows_eq_nil_iff.mp h] at hs
    cases hs
  cases hr : inkedRows s with
  | nil => exact absurd hr hne
  | cons r rs =>
    rw [hr, List.countP_cons] at hnone
    simp only [sectionCount]
    omega

/-- Texts that can stand one after another as the sections of a body. -/
structure InSections (ss : List Text) : Prop where
  one : ∀ s ∈ ss, sectionCount (inkedRows s) = 1
  opened : ∀ s ∈ ss.tail, (inkedRows s).countP opens = 1

theorem inSections_sections (body : Text) : InSections (sections body) := by
  obtain ⟨l, ls, hcut, hl, hls⟩ := exists_cutSections body true
  have hkeep : ls.filter (!allBlank ·) = ls := by
    rw [List.filter_eq_self]
    intro s hs
    obtain ⟨r, rfl⟩ := (hls s hs).1
    rfl
  have hcount : ∀ s ∈ ls, sectionCount (inkedRows s) = 1 ∧ (inkedRows s).countP opens = 1 :=
    fun s hs => count_of_opened (hls s hs).1 (hls s hs).2
  unfold sections
  rw [hcut]
  by_cases hb : allBlank l = true
  · rw [List.filter_cons_of_neg (by simp [hb]), hkeep]
    exact ⟨fun s hs => (hcount s hs).1, fun s hs => (hcount s (List.mem_of_mem_tail hs)).2⟩
  · rw [List.filter_cons_of_pos (by simp [hb]), hkeep]
    refine ⟨fun s hs => ?_, fun s hs => (hcount s hs).2⟩
    rcases List.mem_cons.mp hs with rfl | hs
    · exact count_of_unopened (hl.unopened rfl) hl.inner (by simpa using hb)
    · exact (hcount s hs).1

theorem InSections.within {as ss : List Text} (h : InSections ss) (has : as <:+: ss) : InSections as := by
  refine ⟨fun s hs => h.one s (has.subset hs), fun s hs => h.opened s ?_⟩
  obtain ⟨bs, cs, rfl⟩ := has
  cases as with
  | nil => cases hs
  | cons a as =>
    cases bs with
    | nil => exact List.mem_append_left cs hs
    | cons b bs =>
      simp only [List.tail_cons] at hs
      simp [hs]

theorem InSections.sectionCount_flatMap {ss : List Text} (h : InSections ss) :
    sectionCount (ss.flatMap inkedRows) = ss.length := by
  cases ss with
  | nil => rfl
  | cons s ss =>
    have hs := h.one s List.mem_cons_self
    have hne : inkedRows s ≠ [] := fun e => by rw [e] at hs; cases hs
    have hrest : ∀ ss : List Text, (∀ u ∈ ss, (inkedRows u).countP opens = 1) →
        (ss.flatMap inkedRows).countP opens = ss.length := by
      intro ss hss
      induction ss with
      | nil => rfl
      | cons u ss ih =>
        rw [List.flatMap_cons, List.countP_append, hss u List.mem_cons_self,
          ih fun v hv => hss v (List.mem_cons_of_mem u hv), List.length_cons, Nat.add_comm]
    rw [List.flatMap_cons, sectionCount_append hne, hs, hrest ss h.opened, List.length_cons, Nat.add_comm]

/-- The number of sections of a body, told from its rows. -/
theorem length_sections (body : Text) : (sections body).length = sectionCount (inkedRows body) := by
  rw [← (inSections_sections body).sectionCount_flatMap, inkedRows_sections]

/-- Joined sections are found again. -/
theorem length_sections_join {ss : List Text} (h : InSections ss) :
    (sections (Text.join ['\n'] ss)).length = ss.length := by
  rw [length_sections, Text.inkedRows_join_newline, h.sectionCount_flatMap]

/-! ## Paragraphs -/

def gap : Text := ['\n', '\n']

/-- The number of pieces that are not blank. -/
def inkedCount (ls : List Text) : Nat := ls.countP (!allBlank ·)

theorem length_paragraphs_eq (body : Text) : (paragraphs body).length = inkedCount (cutParagraphs false body) :=
  List.countP_eq_length_filter.symm

theorem inkedCount_cons (l : Text) (ls : List Text) : inkedCount (l :: ls) = inkedCount [l] + inkedCount ls := by
  unfold inkedCount
  rw [← List.singleton_append, List.countP_append]

theorem inkedCount_prepend {a : Text} (ha : allBlank a = true) {ls : List Text} (hls : ls ≠ []) :
    inkedCount (prepend a ls) = inkedCount ls := by
  cases ls with
  | nil => exact absurd rfl hls
  | cons l ls =>
    unfold inkedCount prepend
    rw [List.countP_cons, List.countP_cons, Text.allBlank_append ha]

/-- Line feeds at the front make no paragraph. -/
theorem inkedCount_run (t : Text) : inkedCount (cutParagraphs true t) = inkedCount (cutParagraphs false t) := by
  induction t with
  | nil => rfl
  | cons c r ih =>
    by_cases hc : c = '\n'
    · subst hc
      rw [cutParagraphs, cutParagraphs]
      split
      · rw [inkedCount_cons]
        exact (Nat.zero_add _).symm
      · rw [push_eq_prepend, inkedCount_prepend (by decide) (cutParagraphs_ne_nil r false), ih]
    · rw [cutParagraphs_cons hc, cutParagraphs_cons hc]

theorem inkedCount_snoc_newline (a : Text) : inkedCount [a ++ ['\n']] = inkedCount [a] := by
  have hn : Text.isBlank '\n' = true := by decide
  simp [inkedCount, allBlank, hn]

/-- What stands on both sides of a gap is cut apart, whether a piece or a run of line feeds has begun. -/
theorem inkedCount_gap (b : Text) (a : Text) :
    (∀ x, inkedCount (prepend x (cutParagraphs false (a ++ gap ++ b))) =
      inkedCount (prepend x (cutParagraphs false a)) + inkedCount (cutParagraphs true b)) ∧
    inkedCount (cutParagraphs true (a ++ gap ++ b)) =
      inkedCount (cutParagraphs true a) + inkedCount (cutParagraphs true b) := by
  induction a with
  | nil =>
    have hfalse : cutParagraphs false ([] ++ gap ++ b) = [] :: cutParagraphs true b := by simp [gap, cutParagraphs]
    have htrue : cutParagraphs true ([] ++ gap ++ b) = cutParagraphs true b := by simp [gap, cutParagraphs]
    rw [hfalse, htrue]
    refine ⟨fun x => ?_, (Nat.zero_add _).symm⟩
    simp only [prepend, cutParagraphs, List.append_nil]
    exact inkedCount_cons x _
  | cons c a ih =>
    obtain ⟨ihf, iht⟩ := ih
    by_cases hc : c = '\n'
    · subst hc
      refine ⟨fun x => ?_, iht⟩
      have hskip : ∀ r : Text, r.head? = some '\n' →
          prepend x (cutParagraphs false ('\n' :: r)) = x :: cutParagraphs true r := by
        intro r hr
        simp [cutParagraphs, hr, prepend]
      have hkeep : ∀ r : Text, r.head? ≠ some '\n' →
          prepend x (cutParagraphs false ('\n' :: r)) = prepend (x ++ ['\n']) (cutParagraphs false r) := by
        intro r hr
        rw [cutParagraphs, if_neg hr, prepend_push]
      rw [List.cons_append, List.cons_append]
      cases a with
      | nil =>
        rw [hskip _ rfl, hkeep [] (by simp), inkedCount_cons, iht]
        simp only [cutParagraphs, prepend, List.append_nil, inkedCount_snoc_newline]
        exact congrArg _ (Nat.zero_add _)
      | cons d a =>
        by_cases hd : d = '\n'
        · rw [hskip _ (by simp [hd]), hskip _ (by simp [hd]), inkedCount_cons, iht, inkedCount_cons x (cutParagraphs _ _),
            Nat.add_assoc]
        · rw [hkeep _ (by simp [hd]), hkeep _ (by simp [hd]), ihf]
    · constructor
      · intro x
        rw [List.cons_append, List.cons_append, cutParagraphs_cons hc, cutParagraphs_cons hc, prepend_push,
          prepend_push, ihf]
      · rw [List.cons_append, List.cons_append, cutParagraphs_cons hc, cutParagraphs_cons hc, push_eq_prepend,
          push_eq_prepend, ihf]

theorem length_paragraphs_append (a b : Text) :
    (paragraphs (a ++ gap ++ b)).length = (paragraphs a).length + (paragraphs b).length := by
  have h := (inkedCount_gap b a).1 []
  rw [prepend_nil (cutParagraphs_ne_nil _ _), prepend_nil (cutParagraphs_ne_nil _ _), inkedCount_run b] at h
  rw [length_paragraphs_eq, length_paragraphs_eq, length_paragraphs_eq, h]

theorem cutParagraphs_of_no_gap : ∀ {p : Text}, ¬ gap <:+: p → cutParagraphs false p = [p]
  | [], _ => rfl
  | c :: p, h => by
    rw [List.infix_cons_iff, not_or] at h
    have ih := cutParagraphs_of_no_gap h.2
    by_cases hc : c = '\n'
    · subst hc
      have hp : p.head? ≠ some '\n' := by
        intro hp
        obtain ⟨r, rfl⟩ := List.head?_eq_some_iff.mp hp
        exact h.1 ⟨r, rfl⟩
      rw [cutParagraphs, if_neg hp, ih]
      rfl
    · rw [cutParagraphs_cons hc, ih]
      rfl

theorem exists_cutParagraphs (t : Text) : ∃ l ls, cutParagraphs false t = l :: ls ∧ l <+: t := by
  induction t with
  | nil => exact ⟨[], [], rfl, List.nil_prefix⟩
  | cons c r ih =>
    obtain ⟨l, ls, hcut, hl⟩ := ih
    have hpush : Text.push c (cutParagraphs false r) = (c :: l) :: ls := by rw [hcut]; rfl
    by_cases hc : c = '\n'
    · subst hc
      rw [cutParagraphs, hpush]
      split
      · exact ⟨[], _, rfl, List.nil_prefix⟩
      · exact ⟨_, ls, rfl, List.cons_prefix_cons.mpr ⟨rfl, hl⟩⟩
    · rw [cutParagraphs_cons hc, hpush]
      exact ⟨_, ls, rfl, List.cons_prefix_cons.mpr ⟨rfl, hl⟩⟩

/-- No gap is left within a piece. -/
theorem no_gap_of_mem (t : Text) : ∀ run : Bool, ∀ p ∈ cutParagraphs run t, ¬ gap <:+: p := by
  induction t with
  | nil =>
    intro run p hp
    rw [cutParagraphs, List.mem_singleton] at hp
    rw [hp]
    decide
  | cons c r ih =>
    intro run p hp
    obtain ⟨l, ls, hcut, hl⟩ := exists_cutParagraphs r
    have hpush : (c = '\n' → r.head? ≠ some '\n') → p ∈ Text.push c (cutParagraphs false r) → ¬ gap <:+: p := by
      intro hc hp
      have hls : ∀ q ∈ l :: ls, ¬ gap <:+: q := by
        rw [← hcut]
        exact ih false
      rw [hcut] at hp
      rcases List.mem_cons.mp hp with rfl | hp
      · rw [List.infix_cons_iff]
        rintro (h | h)
        · obtain ⟨hn, hhead⟩ := List.cons_prefix_cons.mp h
          obtain ⟨u, hu⟩ := hhead.trans hl
          exact hc hn.symm (by rw [← hu]; rfl)
        · exact hls l List.mem_cons_self h
      · exact hls p (List.mem_cons_of_mem l hp)
    by_cases hc : c = '\n'
    · subst hc
      cases run with
      | true =>
        rw [cutParagraphs] at hp
        exact ih true p hp
      | false =>
        rw [cutParagraphs] at hp
        split at hp
        · rcases List.mem_cons.mp hp with rfl | hp
          · decide
          · exact ih true p hp
        · next hr => exact hpush (fun _ => hr) hp
    · rw [cutParagraphs_cons hc] at hp
      exact hpush (fun e => absurd e hc) hp

theorem length_paragraphs_of_mem {p body : Text} (hp : p ∈ paragraphs body) : (paragraphs p).length = 1 := by
  unfold paragraphs at hp
  rw [List.mem_filter] at hp
  unfold paragraphs
  rw [cutParagraphs_of_no_gap (no_gap_of_mem body false p hp.1), List.filter_cons_of_pos (by simpa using hp.2)]
  rfl

/-- Joined paragraphs are found again. -/
theorem length_paragraphs_join : ∀ {ps : List Text}, (∀ p ∈ ps, (paragraphs p).length = 1) →
    (paragraphs (Text.join gap ps)).length = ps.length
  | [], _ => rfl
  | [p], h => h p List.mem_cons_self
  | p :: q :: ps, h => by
    have ih := length_paragraphs_join fun u (hu : u ∈ q :: ps) => h u (List.mem_cons_of_mem p hu)
    rw [Text.join_cons _ (by simp), length_paragraphs_append, ih, h p List.mem_cons_self, List.length_cons,
      List.length_cons, List.length_cons, Nat.add_comm]

end Partition
end AgentRules
