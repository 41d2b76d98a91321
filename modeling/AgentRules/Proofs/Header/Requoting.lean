import Mathlib
import AgentRules.Proofs.Header.Meaning
import AgentRules.Proofs.Header.Quoting
import AgentRules.Proofs.Header.Settling

/-!
# Requoting keeps globs

Repair puts the patterns of a list in brackets between quotation marks. It takes a list to end at the
first closing bracket, and it takes away all marks at the ends of a pattern, where reading takes one at
each end. The line with the list is followed through the repair of its block, and no other line gets
its key. Main statements: `ofValue_quoted_iff` for the patterns, `get?_globs_requoted` for the field, and
`requoting_keeps_globs_iff` for when a header without nested brackets keeps its globs.
-/

namespace AgentRules.Header

open Text (isBlank allBlank isQuote rows inkedRows)

/-! ## Lines with the key of globs -/

/-- Nothing but the key, and blanks around it, stands before the first colon. -/
def HasGlobs (l : Text) : Prop :=
  ∃ i j w, l = i ++ "globs".toList ++ j ++ ':' :: w ∧ allBlank i = true ∧ allBlank j = true

theorem colon_not_mem_key {i j : Text} (hi : allBlank i = true) (hj : allBlank j = true) :
    ':' ∉ i ++ "globs".toList ++ j := by
  simp only [List.mem_append, not_or]
  exact ⟨⟨Text.not_mem_of_allBlank hi (by decide), by decide⟩, Text.not_mem_of_allBlank hj (by decide)⟩

theorem hasGlobs_iff {l : Text} : HasGlobs l ↔ isFieldLine l = true ∧ keyOf l = "globs".toList := by
  constructor
  · rintro ⟨i, j, w, rfl, hi, hj⟩
    have hkey : i ++ "globs".toList ++ j = i ++ 'g' :: ("lobs".toList ++ j) := by simp
    have hfirst : (Text.trim (i ++ "globs".toList ++ j ++ ':' :: w)).head? = some 'g' := by
      rw [hkey, List.append_assoc, List.cons_append]
      exact Text.head?_trim_of_ink hi (by decide)
    constructor
    · rw [isFieldLine, Bool.and_eq_true, Bool.not_eq_true', isItemLine_eq_false_iff]
      refine ⟨⟨fun h => ?_, fun h => ?_⟩, by simp⟩
      · rw [h] at hfirst
        exact absurd hfirst (by decide)
      · obtain ⟨r, hr⟩ := h
        rw [← hr] at hfirst
        exact absurd hfirst (by simp)
    · rw [keyOf_append (colon_not_mem_key hi hj), Text.trim_append_blank _ hj]
      have hword : i ++ "globs".toList = i ++ 'g' :: "lobs".toList := rfl
      rw [hword, Text.trim_append_cons (by decide), Text.trimLeft_of_allBlank hi]
      decide
  · rintro ⟨hf, hk⟩
    simp only [isFieldLine, Bool.and_eq_true, List.contains_iff_mem] at hf
    obtain ⟨hl, -⟩ := Text.cut?_eq_some_iff.mp (cut?_colon hf.2)
    obtain ⟨i, j, hi, hib, hjb⟩ := Text.exists_blank_around (l.takeWhile (· != ':'))
    change Text.trim (l.takeWhile (· != ':')) = _ at hk
    rw [hk] at hi
    rw [hi] at hl
    exact ⟨i, j, _, hl, hib, hjb⟩

theorem HasGlobs.not_blank {l : Text} (h : HasGlobs l) : allBlank l = false := by
  obtain ⟨i, j, w, rfl, -, -⟩ := h
  have hcolon : isBlank ':' = false := by decide
  simp [allBlank, hcolon]

theorem globs_mem_keysOf_iff {ls : List Text} : "globs".toList ∈ keysOf ls ↔ ∃ l ∈ ls, HasGlobs l := by
  simp only [keysOf, List.mem_map, List.mem_filter, hasGlobs_iff, and_assoc]

/-! ## No line gets the key -/

theorem HasGlobs.of_trim {l : Text} (h : HasGlobs (Text.trim l)) : HasGlobs l := by
  obtain ⟨a, b, hl, ha, -⟩ := Text.exists_blank_around l
  obtain ⟨i, j, w, ht, hi, hj⟩ := h
  refine ⟨a ++ i, j, w ++ b, ?_, ?_, hj⟩
  · conv_lhs => rw [hl, ht]
    simp only [List.append_assoc, List.cons_append]
  · rw [allBlank, List.all_append, Bool.and_eq_true]
    exact ⟨ha, hi⟩

theorem HasGlobs.of_spaceColon {l : Text} (h : HasGlobs (spaceColon l)) : HasGlobs l := by
  obtain hl | ⟨w, ws, c, r, hl, hw, -, hs⟩ := spaceColon_cases l
  · rwa [hl] at h
  · obtain ⟨i, j, v, hv, hi, hj⟩ := h
    have hword : ':' ∉ w :: ws := fun hm => absurd (hw ':' hm) (by decide)
    rw [hs] at hv
    obtain ⟨hkey, -⟩ := Text.eq_of_first hword (colon_not_mem_key hi hj) hv
    exact ⟨i, j, c :: r, by rw [hl, hkey], hi, hj⟩

theorem prefix_name_quoteGlobs {j t : Text} (hj : allBlank j = true)
    (h : "globs".toList ++ j ++ [':'] <+: quoteGlobs 0 t) : "globs".toList ++ j ++ [':'] <+: t := by
  cases t with
  | nil => exact h
  | cons c r =>
    cases hm : flowGlobs? (c :: r) with
    | none =>
      have hg : 'g' ∉ "lobs".toList ++ j ++ [':'] := by
        simp only [List.mem_append, not_or]
        exact ⟨⟨by decide, Text.not_mem_of_allBlank hj (by decide)⟩, by decide⟩
      rw [quoteGlobs_of_none hm] at h
      change 'g' :: ("lobs".toList ++ j ++ [':']) <+: _ at h
      change 'g' :: ("lobs".toList ++ j ++ [':']) <+: _
      rw [List.cons_prefix_cons] at h ⊢
      exact ⟨h.1, prefix_quoteGlobs hg h.2⟩
    | some p =>
      obtain ⟨gap, rest, ht, hgap, hi, -⟩ := flowGlobs?_eq_some_iff.mp hm
      rw [ht, quoteGlobs_list hgap hi] at h
      rw [ht]
      -- After the letters of the name comes the colon at once.
      cases j with
      | nil => exact ⟨gap ++ '[' :: p.1 ++ ']' :: rest, by simp⟩
      | cons d j =>
        change "globs".toList ++ (d :: (j ++ [':'])) <+: "globs".toList ++ (':' :: _) at h
        rw [List.prefix_append_right_inj, List.cons_prefix_cons] at h
        exact absurd (by rw [h.1]; simp) (Text.not_mem_of_allBlank (c := ':') hj (by decide))

/-- No key of globs is made by quoting. -/
theorem prefix_key_quoteGlobs {j : Text} (hj : allBlank j = true) {i : Text} : ∀ {t : Text}, allBlank i = true →
    i ++ "globs".toList ++ j ++ [':'] <+: quoteGlobs 0 t → i ++ "globs".toList ++ j ++ [':'] <+: t := by
  induction i with
  | nil => exact fun _ h => prefix_name_quoteGlobs hj h
  | cons d i ih =>
    intro t hi h
    rw [allBlank, List.all_cons, Bool.and_eq_true] at hi
    cases t with
    | nil => exact h
    | cons c r =>
      cases hm : flowGlobs? (c :: r) with
      | none =>
        rw [quoteGlobs_of_none hm] at h
        simp only [List.cons_append, List.cons_prefix_cons] at h ⊢
        exact ⟨h.1, ih hi.2 h.2⟩
      | some p =>
        obtain ⟨gap, rest, ht, hgap, hin, -⟩ := flowGlobs?_eq_some_iff.mp hm
        rw [ht, quoteGlobs_list hgap hin] at h
        change d :: _ <+: 'g' :: _ at h
        rw [List.cons_prefix_cons] at h
        rw [h.1] at hi
        exact absurd hi.1 (by decide)

theorem exists_row_of_quoteGlobs {t m : Text} (hm : m ∈ rows (quoteGlobs 0 t)) (h : HasGlobs m) :
    ∃ l ∈ rows t, HasGlobs l := by
  obtain ⟨i, j, w, rfl, hi, hj⟩ := h
  have hnew : '\n' ∉ i ++ "globs".toList ++ j ++ [':'] := by
    have := Text.sep_not_mem_fields hm
    simp only [List.mem_append, List.mem_cons, not_or] at this ⊢
    tauto
  have hmark : ∀ {c : Char}, isBlank c = false → c ∉ "globs:".toList → c ∉ i ++ "globs".toList ++ j ++ [':'] := by
    intro c hc hk hm
    simp only [List.mem_append, Text.not_mem_of_allBlank hi hc, Text.not_mem_of_allBlank hj hc, false_or, or_false] at hm
    exact hk (List.mem_append.mpr hm)
  -- The row starts after a line feed, if one is put before the text.
  have hpre : '\n' :: (i ++ "globs".toList ++ j ++ [':']) <:+: quoteGlobs 0 ('\n' :: t) := by
    rw [quoteGlobs_of_none (flowGlobs?_of_head (by decide) t), Text.infix_newline_iff hnew, Text.rows_cons_newline]
    exact ⟨_, hm, w, by simp⟩
  have hin := infix_quoteGlobs (hmark (by decide) (by decide)) (hmark (by decide) (by decide))
    (hmark (by decide) (by decide)) (fun _ => prefix_key_quoteGlobs hj hi) _ hpre
  rw [Text.infix_newline_iff hnew, Text.rows_cons_newline] at hin
  obtain ⟨l, hl, v, hv⟩ := hin
  exact ⟨l, hl, i, j, v, by rw [← hv]; simp, hi, hj⟩

/-! ## The line of a list -/

/-- One of some lines gives a list of globs in brackets, and no other line has its key. -/
structure GivesList (before : List Text) (row : Text) (after : List Text) (inside : Text) : Prop where
  field : isFieldLine row = true
  key : keyOf row = "globs".toList
  only : "globs".toList ∉ keysOf (before ++ after)
  unindented : isIndented row = false
  list : writtenOf row = '[' :: inside ++ [']']

/-- The list of such a line after repair. Behind a key with its colon next to it, it is quoted up to the
first closing bracket. What is left of it, like all of a list behind another key, has only those lists
quoted that start in it. -/
def requoted (named : Prop) [Decidable named] (inside : Text) : Text :=
  if named then match Text.cut? ']' inside with
    | some (a, b) => flowList (globItems a) ++ quoteGlobs 0 (b ++ [']'])
    | none => flowList (globItems inside)
  else '[' :: quoteGlobs 0 (inside ++ [']'])

section
variable {named : Prop} [Decidable named]

theorem requoted_of_bracket (hn : named) {a : Text} (ha : ']' ∉ a) (b : Text) :
    requoted named (a ++ ']' :: b) = flowList (globItems a) ++ quoteGlobs 0 (b ++ [']']) := by
  simp only [requoted, if_pos hn, Text.cut?_eq_some_iff.mpr ⟨rfl, ha⟩]

theorem requoted_of_not_mem (hn : named) {inside : Text} (hin : ']' ∉ inside) :
    requoted named inside = flowList (globItems inside) := by
  simp only [requoted, if_pos hn, Text.cut?_eq_none_iff.mpr hin]

theorem exists_requoted (named : Prop) [Decidable named] (inside : Text) :
    ∃ m, requoted named inside = '[' :: m ++ [']'] := by
  by_cases hn : named
  · cases hc : Text.cut? ']' inside with
    | none => exact ⟨_, by simp only [requoted, if_pos hn, hc, flowList]; rfl⟩
    | some p =>
      obtain ⟨m, hm⟩ := exists_quoteGlobs_bracket p.2
      exact ⟨_, by simp only [requoted, if_pos hn, hc, hm, flowList, List.cons_append, ← List.append_assoc]; rfl⟩
  · obtain ⟨m, hm⟩ := exists_quoteGlobs_bracket inside
    exact ⟨m, by rw [requoted, if_neg hn, hm]; rfl⟩

theorem valueOf_requoted {inside q : Text} (h : writtenOf q = requoted named inside) (after : List Text) :
    valueOf q after = .text (requoted named inside) := by
  obtain ⟨m, hm⟩ := exists_requoted named inside
  rw [valueOf, h, hm, if_pos (by simp)]; rfl

end

theorem GivesList.exists_blanks {before after : List Text} {row inside : Text} (h : GivesList before row after inside) :
    ∃ i j g z, row = i ++ "globs".toList ++ j ++ ':' :: (g ++ '[' :: (inside ++ ']' :: z)) ∧ allBlank i = true ∧
      allBlank j = true ∧ allBlank g = true ∧ allBlank z = true := by
  obtain ⟨i, j, w, hrow, hi, hj⟩ := hasGlobs_iff.mpr ⟨h.field, h.key⟩
  have hw := h.list
  rw [hrow, writtenOf_append (colon_not_mem_key hi hj)] at hw
  obtain ⟨g, z, hgz, hg, hz⟩ := Text.exists_blank_around w
  rw [hw] at hgz
  exact ⟨i, j, g, z, by rw [hrow, hgz]; simp, hi, hj, hg, hz⟩

section
variable {i j g inside z : Text} (hi : allBlank i = true) (hj : allBlank j = true) (hg : allBlank g = true)
  (hz : allBlank z = true)

include hi in
theorem trimLeft_key (w : Text) :
    Text.trimLeft (i ++ "globs".toList ++ j ++ ':' :: w) = "globs".toList ++ j ++ ':' :: w := by
  have hkey : i ++ "globs".toList ++ j ++ ':' :: w = i ++ 'g' :: ("lobs".toList ++ j ++ ':' :: w) := by simp
  rw [hkey, Text.trimLeft_append_cons (by decide), Text.trimLeft_of_allBlank hi]; rfl

include hi hj in
theorem name_prefix_iff (w : Text) :
    "globs:".toList <+: Text.trimLeft (i ++ "globs".toList ++ j ++ ':' :: w) ↔ j = [] := by
  have hname : "globs:".toList = "globs".toList ++ [':'] := rfl
  rw [trimLeft_key hi, hname, List.append_assoc, List.prefix_append_right_inj]
  cases j with
  | nil => simp
  | cons d j =>
    have hd : ':' ≠ d := fun e => Text.not_mem_of_allBlank (c := ':') hj (by decide) (by rw [e]; simp)
    simp [hd]

include hi hj in
/-- A blank after a colon is one more blank before the list. -/
theorem exists_spaceColon_list (hg : allBlank g = true) (r : Text) : ∃ g', allBlank g' = true ∧
    spaceColon (i ++ "globs".toList ++ j ++ ':' :: (g ++ r)) = i ++ "globs".toList ++ j ++ ':' :: (g' ++ r) := by
  obtain h | ⟨w, ws, c, s, hl, hw, -, h⟩ := spaceColon_cases (i ++ "globs".toList ++ j ++ ':' :: (g ++ r))
  · exact ⟨g, hg, h⟩
  · have hword : ':' ∉ w :: ws := fun hm => absurd (hw ':' hm) (by decide)
    obtain ⟨hkey, hs⟩ := Text.eq_of_first (colon_not_mem_key hi hj) hword hl
    refine ⟨' ' :: g, by rw [allBlank, List.all_cons, ← allBlank, hg]; decide, ?_⟩
    rw [h, ← hkey, ← hs]; rfl

include hi hj hg in
/-- With a blank before the colon no list starts at the key. -/
theorem quoteGlobs_append_key (hne : j ≠ []) (r : Text) :
    quoteGlobs 0 (i ++ "globs".toList ++ j ++ ':' :: (g ++ r)) =
      i ++ "globs".toList ++ j ++ ':' :: (g ++ quoteGlobs 0 r) := by
  have hnone : flowGlobs? ("globs".toList ++ j ++ ':' :: (g ++ r)) = none := by
    refine Option.eq_none_iff_forall_ne_some.mpr fun p hp => hne ?_
    obtain ⟨gap, rest, ht, -⟩ := flowGlobs?_eq_some_iff.mp hp
    rw [← name_prefix_iff (i := []) rfl hj (g ++ r), trimLeft_key rfl, ht]
    exact ⟨gap ++ '[' :: p.1 ++ ']' :: rest, by simp⟩
  have hletters : 'g' ∉ "lobs".toList ++ j ++ ':' :: g := by
    have hg' : isBlank 'g' = false := by decide
    simp [Text.not_mem_of_allBlank hj hg', Text.not_mem_of_allBlank hg hg']
  have hkey : i ++ "globs".toList ++ j ++ ':' :: (g ++ r) =
      i ++ 'g' :: (("lobs".toList ++ j ++ ':' :: g) ++ r) := by simp
  have hword : "globs".toList ++ j ++ ':' :: (g ++ r) = 'g' :: (("lobs".toList ++ j ++ ':' :: g) ++ r) := by simp
  rw [hword] at hnone
  rw [hkey, quoteGlobs_blank_append hi, quoteGlobs_of_none hnone, quoteGlobs_append_of_not_mem hletters]
  simp

include hi hj hg hz in
/-- The line of a list is quoted by itself, whatever comes after it. -/
theorem exists_quoted_list (inside : Text) : ∃ w, Text.trim w = requoted (j = []) inside ∧
    ∀ s, quoteGlobs 0 (i ++ "globs".toList ++ j ++ ':' :: (g ++ '[' :: (inside ++ ']' :: z)) ++ s) =
      i ++ "globs".toList ++ j ++ ':' :: w ++ quoteGlobs 0 s := by
  obtain ⟨m, hm⟩ := exists_requoted (j = []) inside
  have htrim : Text.trim (requoted (j = []) inside) = requoted (j = []) inside := by
    rw [hm, Text.trim_between (by decide) (by decide)]
  by_cases hne : j = []
  · refine ⟨' ' :: requoted (j = []) inside ++ z, ?_, fun s => ?_⟩
    · rw [Text.trim_append_blank _ hz, Text.trim_cons_blank (by decide), htrim]
    · subst hne
      by_cases hin : ']' ∈ inside
      · obtain ⟨a, b, rfl, ha⟩ := List.eq_append_cons_of_mem hin
        have hlist : i ++ "globs".toList ++ [] ++ ':' :: (g ++ '[' :: (a ++ ']' :: b ++ ']' :: z)) ++ s =
            i ++ ("globs:".toList ++ g ++ '[' :: a ++ ']' :: (b ++ ']' :: (z ++ s))) := by simp
        rw [hlist, quoteGlobs_blank_append hi, quoteGlobs_list hg ha, quoteGlobs_cut, quoteGlobs_blank_append hz,
          requoted_of_bracket rfl ha]
        simp
      · have hlist : i ++ "globs".toList ++ [] ++ ':' :: (g ++ '[' :: (inside ++ ']' :: z)) ++ s =
            i ++ ("globs:".toList ++ g ++ '[' :: inside ++ ']' :: (z ++ s)) := by simp
        rw [hlist, quoteGlobs_blank_append hi, quoteGlobs_list hg hin, quoteGlobs_blank_append hz,
          requoted_of_not_mem rfl hin]
        simp
  · refine ⟨g ++ requoted (j = []) inside ++ z, ?_, fun s => ?_⟩
    · rw [Text.trim_append_blank _ hz, Text.trim_blank_append hg, htrim]
    · have hlist : i ++ "globs".toList ++ j ++ ':' :: (g ++ '[' :: (inside ++ ']' :: z)) ++ s =
          i ++ "globs".toList ++ j ++ ':' :: (g ++ '[' :: (inside ++ ']' :: (z ++ s))) := by simp
      rw [hlist, quoteGlobs_append_key hi hj hg hne, quoteGlobs_of_none (flowGlobs?_of_head (by decide) _),
        quoteGlobs_cut, quoteGlobs_blank_append hz, requoted, if_neg hne]
      simp

end

/-! ## The rows of a repaired block -/

theorem dedent_append {row : Text} (hr : isIndented row = false) (hb : allBlank row = false) (bs : List Text) :
    ∀ (as : List Text) (p : Text), dedent p (as ++ row :: bs) = dedent p as ++ row :: dedent row bs := by
  intro as
  induction as with
  | nil =>
    intro p
    have hm : isMisplaced p row = false := by rw [isMisplaced, hr]; rfl
    rw [List.nil_append, dedent]
    simp [hb, hm, dedent]
  | cons a as ih =>
    intro p
    rw [List.cons_append, dedent, dedent]
    by_cases ha : allBlank a = true
    · rw [if_pos ha, if_pos ha, ih]; rfl
    · simp only [if_neg ha, ih]; rfl

/-- What comes of the rows below a row has no new keys. -/
theorem exists_rows_below {r : Text} {bs : List Text} (hr : '\n' ∉ r) (hbs : ∀ b ∈ bs, '\n' ∉ b) :
    ∃ q ns, rows (quoteGlobs 0 (Text.join ['\n'] (r :: bs))) = q :: ns ∧
      ∀ n ∈ ns, HasGlobs n → ∃ b ∈ bs, HasGlobs b := by
  obtain ⟨q, ns, hq⟩ := List.exists_cons_of_ne_nil (Text.rows_ne_nil (quoteGlobs 0 (Text.join ['\n'] (r :: bs))))
  refine ⟨q, ns, hq, fun n hn hk => ?_⟩
  -- A letter before the first row keeps it from having the key, and nothing else changes.
  have hrows : rows (Text.join ['\n'] (r :: bs)) = r :: bs :=
    Text.fields_join (by simp) (List.forall_mem_cons.mpr ⟨hr, hbs⟩)
  have hmem : n ∈ rows (quoteGlobs 0 ('x' :: Text.join ['\n'] (r :: bs))) := by
    rw [quoteGlobs_of_none (flowGlobs?_of_head (by decide) _), Text.rows_cons (by decide), hq]
    exact List.mem_cons_of_mem _ hn
  obtain ⟨l, hl, hg⟩ := exists_row_of_quoteGlobs hmem hk
  rw [Text.rows_cons (by decide), hrows] at hl
  rcases List.mem_cons.mp hl with rfl | hl
  · obtain ⟨i, j, w, hi, hib, -⟩ := hg
    cases i with
    | nil => exact absurd (List.cons.inj hi).1 (by decide)
    | cons c i =>
      rw [← (List.cons.inj hi).1, allBlank, List.all_cons, Bool.and_eq_true] at hib
      exact absurd hib.1 (by decide)
  · exact ⟨l, hl, hg⟩

theorem exists_rows_around {as : List Text} (hopen : ¬ LeavesOpen (Text.join ['\n'] as)) {r : Text} {bs : List Text}
    (hfirst : (Text.trimLeft (Text.join ['\n'] (r :: bs))).head? = some 'g') :
    ∃ ms, rows (quoteGlobs 0 (Text.join ['\n'] (as ++ r :: bs))) =
      ms ++ rows (quoteGlobs 0 (Text.join ['\n'] (r :: bs))) := by
  cases as with
  | nil => exact ⟨[], rfl⟩
  | cons a as =>
    refine ⟨rows (quoteGlobs 0 (Text.join ['\n'] (a :: as))), ?_⟩
    rw [Text.join_append _ (by simp) (by simp), List.append_assoc, List.singleton_append,
      quoteGlobs_append_row hopen hfirst, rows, Text.fields_append_cons]
    rfl

theorem exists_rows_of_quoted {r q : Text} (hrow : ∀ s, quoteGlobs 0 (r ++ s) = q ++ quoteGlobs 0 s) (hr : '\n' ∉ r)
    (bs : List Text) : ∃ ns, rows (quoteGlobs 0 (Text.join ['\n'] (r :: bs))) = q :: ns := by
  have hself : quoteGlobs 0 r = q := by simpa [quoteGlobs] using hrow []
  have hq : '\n' ∉ q := fun hm => by
    rw [← hself] at hm
    exact (mem_quoteGlobs r _ hm).elim hr (by decide)
  cases bs with
  | nil => exact ⟨[], by rw [Text.join, hself, rows, Text.fields_of_not_mem hq]⟩
  | cons b bs =>
    refine ⟨rows (quoteGlobs 0 (Text.join ['\n'] (b :: bs))), ?_⟩
    rw [Text.join_cons_cons, hrow, quoteGlobs_of_none (flowGlobs?_of_head (by decide) _), rows,
      Text.fields_append_cons, Text.fields_of_not_mem hq]
    rfl

/-- The line of a list and the rows below it, before lists are quoted. -/
def evenedFrom (row : Text) (after : List Text) : Text :=
  Text.join ['\n'] (spaceColon row :: (dedent row after).map spaceColon)

section
variable {block : Text} {before after : List Text} {row : Text} (hrows : rows block = before ++ row :: after)
  (hk : HasGlobs row) (hu : isIndented row = false) (honly : "globs".toList ∉ keysOf (before ++ after))
  (hb : ¬ LeavesOpen (Text.join ['\n'] before))
include hrows hk hu honly hb

/-- The rows of a repaired block go on with what comes of the line of a list and of the rows below it,
and no later row has its key. -/
theorem exists_rows_repairBlock : ∃ ms q ns, rows (repairBlock block) = ms ++ q :: ns ∧
    rows (quoteGlobs 0 (evenedFrom row after)) = q :: ns ∧ ∀ n ∈ ns, ¬ HasGlobs n := by
  have hlines : (dedent [] (rows block)).map spaceColon =
      (dedent [] before).map spaceColon ++ spaceColon row :: (dedent row after).map spaceColon := by
    rw [hrows, dedent_append hu hk.not_blank, List.map_append, List.map_cons]
  have hnew : ∀ m ∈ (dedent [] before).map spaceColon ++ spaceColon row :: (dedent row after).map spaceColon,
      '\n' ∉ m := by
    rw [← hlines, ← rows_join_repaired]
    exact fun m => Text.sep_not_mem_fields
  have hfirst : (Text.trimLeft (evenedFrom row after)).head? = some 'g' := by
    obtain ⟨i, j, w, rfl, hi, hj⟩ := hk
    obtain ⟨g, -, hs⟩ := exists_spaceColon_list hi hj (g := []) rfl w
    obtain ⟨s, hjoin⟩ := Text.prefix_join ['\n'] (spaceColon (i ++ "globs".toList ++ j ++ ':' :: w))
      ((dedent (i ++ "globs".toList ++ j ++ ':' :: w) after).map spaceColon)
    rw [List.nil_append] at hs
    rw [evenedFrom, ← hjoin, hs, List.append_assoc, List.cons_append, trimLeft_key hi]; rfl
  obtain ⟨ms, hms⟩ := exists_rows_around (fun h => hb h.of_repaired) hfirst
  obtain ⟨q, ns, hq, hns⟩ := exists_rows_below (hnew (spaceColon row) (by simp))
    fun b hbm => hnew b (List.mem_append_right _ (List.mem_cons_of_mem _ hbm))
  refine ⟨ms, q, ns, by rw [repairBlock_eq, evened, hlines, hms, hq], hq, fun n hn hnk => ?_⟩
  obtain ⟨b, hbm, hbk⟩ := hns n hn hnk
  obtain ⟨m, hm, rfl⟩ := List.mem_map.mp hbm
  obtain ⟨l, hlm, hlk⟩ := exists_of_mem_right (forall₂_dedent (R := fun l m => HasGlobs m → HasGlobs l)
    (fun _ => id) (fun _ _ _ => HasGlobs.of_trim) after row) hm
  exact honly (globs_mem_keysOf_iff.mpr ⟨l, by simp [hlm], hlk hbk.of_spaceColon⟩)

/-- What a repaired header has under the key of globs, if the line that has come of the list still has
the key. -/
theorem get?_globs_repair {t rest : Text} (hc : cut? t = some (block, rest)) (hm : ofText t = .malformed)
    (hf : Text.OnlyLineFeeds block) : ∃ q ns, rows (quoteGlobs 0 (evenedFrom row after)) = q :: ns ∧
      (HasGlobs q → (ofText (repair t)).get? "globs".toList = some (valueOf q (ns.filter (!allBlank ·)))) := by
  obtain ⟨ms, q, ns, hq, hfrom, hns⟩ := exists_rows_repairBlock hrows hk hu honly hb
  refine ⟨q, ns, hfrom, fun hkey => ?_⟩
  have hplain := plainBreaks_repairBlock hf.plainBreaks
  have hret := return_not_mem_repairBlock hf.return_not_mem
  obtain ⟨fs, hfs⟩ := exists_fields_of_inPlace hplain (inPlace_repairBlock block)
  have hread : ofText (repair t) = .fields fs := by
    rw [repair_of_malformed hm hc, ofText, cut?_repairBlock hc, withoutReturn_of_not_mem hret]
    exact hfs
  obtain ⟨hfield, hglobs⟩ := hasGlobs_iff.mp hkey
  have hlines : blockLines (repairBlock block) = ms.filter (!allBlank ·) ++ q :: ns.filter (!allBlank ·) := by
    rw [blockLines_eq_inkedRows hplain hret, inkedRows, hq, List.filter_append,
      List.filter_cons_of_pos (by simp [hkey.not_blank])]
  have hlast : keyOf q ∉ keysOf (ns.filter (!allBlank ·)) := by
    rw [hglobs, globs_mem_keysOf_iff]
    rintro ⟨n, hn, hnk⟩
    exact hns n (List.mem_of_mem_filter hn) hnk
  rw [hread, get?, fields?, Option.bind_some, ofBlock_eq_fields hfs, hlines, ← hglobs, get?_gather hfield hlast]

end

theorem newline_not_mem_spaceColon {block : Text} {before after : List Text} {row : Text}
    (hrows : rows block = before ++ row :: after) : '\n' ∉ spaceColon row := by
  intro hm
  have hrow : '\n' ∉ row := Text.sep_not_mem_fields (t := block) (by change row ∈ rows block; rw [hrows]; simp)
  exact ((rowTo_spaceColon row).subset _ hm).elim hrow (by decide)

/-- **A list after repair.** What a repaired header has under the key of globs, if it had a list in
brackets on one line there and no list was left open before it. -/
theorem get?_globs_requoted {t block rest : Text} {before after : List Text} {row inside : Text}
    (hc : cut? t = some (block, rest)) (hm : ofText t = .malformed) (hf : Text.OnlyLineFeeds block)
    (hrows : rows block = before ++ row :: after) (hl : GivesList before row after inside)
    (hb : ¬ LeavesOpen (Text.join ['\n'] before)) :
    (ofText (repair t)).get? "globs".toList =
      some (.text (requoted ("globs:".toList <+: Text.trimLeft row) inside)) := by
  obtain ⟨q, ns, hq, hget⟩ := get?_globs_repair hrows (hasGlobs_iff.mpr ⟨hl.field, hl.key⟩) hl.unindented hl.only
    hb hc hm hf
  obtain ⟨i, j, g, z, hrow, hi, hj, hg, hz⟩ := hl.exists_blanks
  obtain ⟨g', hg', hspace⟩ := exists_spaceColon_list hi hj hg ('[' :: (inside ++ ']' :: z))
  obtain ⟨w, hw, hquote⟩ := exists_quoted_list hi hj hg' hz inside
  rw [← hrow] at hspace
  rw [← hspace] at hquote
  obtain ⟨ms, hms⟩ := exists_rows_of_quoted hquote (newline_not_mem_spaceColon hrows)
    ((dedent row after).map spaceColon)
  obtain ⟨rfl, -⟩ := List.cons.inj (hq.symm.trans hms)
  have hwritten : writtenOf (i ++ "globs".toList ++ j ++ ':' :: w) =
      requoted ("globs:".toList <+: Text.trimLeft row) inside := by
    rw [writtenOf_append (colon_not_mem_key hi hj), hw, hrow]
    simp only [name_prefix_iff hi hj]
  rw [hget ⟨i, j, w, rfl, hi, hj⟩, valueOf_requoted hwritten]

/-! ## Patterns -/

theorem ofValue_brackets (inside : Text) : Glob.ofValue (some (.text ('[' :: inside ++ [']']))) =
    Glob.clean (Text.fields ',' inside) := by
  have hinside : Glob.inside (inside ++ [']']) = inside := by
    rw [Glob.inside, if_pos List.getLast?_concat, List.dropLast_concat]
  rw [Glob.ofValue, Text.trim_between (by decide) (by decide), List.cons_append]
  simp only [hinside]

/-- **Quoted patterns.** A list in brackets has the same patterns after it is quoted if none of them has
a quotation mark at an end, and only then. -/
theorem ofValue_quoted_iff (inside : Text) : Glob.ofValue (some (.text (flowList (globItems inside)))) =
      Glob.ofValue (some (.text ('[' :: inside ++ [']']))) ↔
    ∀ p ∈ Glob.ofValue (some (.text ('[' :: inside ++ [']']))), NoQuotesAround p := by
  have hitems : (globItems inside).filter (!·.isEmpty) =
      (((Text.fields ',' inside).map fun f => Glob.stripQuotes (Text.trim f)).map bare).filter (!·.isEmpty) := by
    rw [globItems_eq, List.filter_filter, List.map_map]
    simp only [Bool.and_self, Function.comp_def, bare_stripQuotes]
    rfl
  rw [Glob.ofValue_flowList, Glob.clean_fields_flow fun _ => comma_not_mem_globItems, hitems, ofValue_brackets,
    Glob.clean, eq_comm, Glob.filter_map_eq_filter_iff rfl]
  simp only [bare_eq_self_iff, List.mem_filter]
  constructor
  · exact fun h p hp => h p hp.1
  · intro h p hp
    cases p with
    | nil => exact ⟨by simp, by simp⟩
    | cons c r => exact h _ ⟨hp, rfl⟩

/-- **Requoting keeps globs.** A block with a stray indentation and no line ends but line feeds gives
its globs in brackets on one line, with no closing bracket among them and with no list left open there
or before it. After repair the header gives the same globs if a blank stands before the colon or no
pattern has a quotation mark at an end, and only then. -/
theorem requoting_keeps_globs_iff {t block rest : Text} {before after : List Text} {row inside : Text}
    (hc : cut? t = some (block, rest)) (hm : ofText t = .malformed)
    (hf : Text.OnlyLineFeeds block) (hrows : rows block = before ++ row :: after)
    (hl : GivesList before row after inside) (hin : ']' ∉ inside) (ho : ¬ LeavesOpen inside)
    (hb : ¬ LeavesOpen (Text.join ['\n'] before)) :
    ∃ v, (ofText (repair t)).get? "globs".toList = some v ∧
      (Glob.ofValue (some v) = Glob.ofValue (some (.text ('[' :: inside ++ [']']))) ↔
        ¬ "globs:".toList <+: Text.trimLeft row ∨
          ∀ p ∈ Glob.ofValue (some (.text ('[' :: inside ++ [']']))), NoQuotesAround p) := by
  refine ⟨_, get?_globs_requoted hc hm hf hrows hl hb, ?_⟩
  by_cases hname : "globs:".toList <+: Text.trimLeft row
  · rw [requoted_of_not_mem hname hin, ofValue_quoted_iff]
    simp only [hname, not_true_eq_false, false_or]
  · have hstay : quoteGlobs 0 (inside ++ [']']) = inside ++ [']'] := quoteGlobs_append_bracket hin ho []
    rw [requoted, if_neg hname, hstay, ← List.cons_append]
    simp only [hname, not_false_eq_true, true_or]

/-- Marks around some patterns, an empty pattern, and a bracket before the list. -/
theorem marked_globs_stay : ∃ v,
    (ofText (repair "---\ntitle:[x\n  a: true\nglobs:[*.py, 'lib/**',, \"t\" ]\n---\n".toList)).get? "globs".toList =
        some v ∧
      Glob.ofValue (some v) = ["*.py".toList, "lib/**".toList, "t".toList] := by
  have hc : cut? "---\ntitle:[x\n  a: true\nglobs:[*.py, 'lib/**',, \"t\" ]\n---\n".toList =
      some ("title:[x\n  a: true\nglobs:[*.py, 'lib/**',, \"t\" ]".toList, ['\n']) := by decide
  have hm : ofText "---\ntitle:[x\n  a: true\nglobs:[*.py, 'lib/**',, \"t\" ]\n---\n".toList = .malformed := by decide
  have hrows : rows "title:[x\n  a: true\nglobs:[*.py, 'lib/**',, \"t\" ]".toList =
      ["title:[x".toList, "  a: true".toList] ++ "globs:[*.py, 'lib/**',, \"t\" ]".toList :: [] := by decide
  have hl : GivesList ["title:[x".toList, "  a: true".toList] "globs:[*.py, 'lib/**',, \"t\" ]".toList []
      "*.py, 'lib/**',, \"t\" ".toList := ⟨by decide, by decide, by decide, by decide, by decide⟩
  obtain ⟨v, hv, hglobs⟩ := requoting_keeps_globs_iff hc hm (by decide) hrows hl (by decide)
    (fun h => absurd h.name_infix (by decide)) (fun h => absurd h.name_infix (by decide))
  have hpatterns : Glob.ofValue (some (.text ('[' :: "*.py, 'lib/**',, \"t\" ".toList ++ [']']))) =
      ["*.py".toList, "lib/**".toList, "t".toList] := by decide
  rw [hpatterns] at hglobs
  refine ⟨v, hv, hglobs.mpr (Or.inr fun p hp => ?_)⟩
  simp only [List.mem_cons, List.not_mem_nil, or_false] at hp
  rcases hp with rfl | rfl | rfl <;> exact ⟨by simp [isQuote], by simp [isQuote]⟩

/-- The closing bracket of a class of characters is taken for that of the list. -/
theorem character_class_is_torn :
    cut? "---\ntitle: x\n  a: true\nglobs: [src/[a-z].ts, b]\n---\n".toList =
        some ("title: x\n  a: true\nglobs: [src/[a-z].ts, b]".toList, ['\n']) ∧
      ofText "---\ntitle: x\n  a: true\nglobs: [src/[a-z].ts, b]\n---\n".toList = .malformed ∧
      Text.OnlyLineFeeds "title: x\n  a: true\nglobs: [src/[a-z].ts, b]".toList ∧
      rows "title: x\n  a: true\nglobs: [src/[a-z].ts, b]".toList =
        ["title: x".toList, "  a: true".toList] ++ "globs: [src/[a-z].ts, b]".toList :: [] ∧
      GivesList ["title: x".toList, "  a: true".toList] "globs: [src/[a-z].ts, b]".toList [] "src/[a-z].ts, b".toList ∧
      Glob.ofValue (some (.text "[src/[a-z].ts, b]".toList)) = ["src/[a-z].ts".toList, "b".toList] ∧
      Glob.ofValue ((ofText (repair "---\ntitle: x\n  a: true\nglobs: [src/[a-z].ts, b]\n---\n".toList)).get?
        "globs".toList) = ["src/[a-z\"].ts".toList, "b".toList] :=
  ⟨by decide, by decide, by decide, by decide, ⟨by decide, by decide, by decide, by decide, by decide⟩, by decide,
    by decide⟩

end AgentRules.Header
