import AgentRules.Proofs.Header.Requoting

/-!
# Torn lists and open lists

Quoting takes a list in brackets to end at the first closing bracket, wherever that stands. A list with
a closing bracket inside is torn there: the last pattern before the bracket is put between quotation
marks, and the rest of the list is left behind it. A list that is not closed on its line takes in what
stands in the rows below, up to the first closing bracket in them. Main statements: `ofValue_torn` and
`torn_list_changes_globs` for brackets inside, `get?_globs_of_spaced_key` for lists that are not quoted,
`get?_globs_run_on` for a list open at the end of its line, and `repairBlock_of_leavesOpen` for rows that
leave a list open.
-/

namespace AgentRules

namespace Glob

theorem clean_append (ts us : List Text) : clean (ts ++ us) = clean ts ++ clean us := by
  rw [clean, List.map_append, List.filter_append]; rfl

theorem clean_fields_cons_blank {c : Char} (hc : Text.isBlank c = true) (hne : c ≠ ',') (t : Text) :
    clean (Text.fields ',' (c :: t)) = clean (Text.fields ',' t) := by
  obtain ⟨f, fs, hf⟩ := List.exists_cons_of_ne_nil (Text.fields_ne_nil ',' t)
  rw [Text.fields_cons_of_ne hne, hf, Text.push, clean, List.map_cons, Text.trim_cons_blank hc]; rfl

theorem stripQuotes_isInfix (t : Text) : stripQuotes t <:+: t := by
  have hlast : ∀ u : Text, withoutLastQuote u <+: u := by
    intro u
    unfold withoutLastQuote
    split
    · split
      · exact List.dropLast_prefix u
      · exact List.prefix_refl u
    · exact List.prefix_refl u
  cases t with
  | nil => exact List.infix_refl _
  | cons c r =>
    rw [stripQuotes_cons]
    refine (hlast _).isInfix.trans ?_
    split
    · exact (List.suffix_cons c r).isInfix
    · exact List.infix_refl _

/-- What stands before a closing bracket in a pattern stays there, but for a mark at the front. -/
theorem exists_stripQuotes_bracket (u v : Text) : ∃ w, stripQuotes ('"' :: u ++ ']' :: v) = u ++ ']' :: w := by
  have hquote : Text.isQuote '"' = true := by decide
  rw [List.cons_append, stripQuotes_cons, if_pos hquote, withoutLastQuote]
  split
  · split
    · next hc hq =>
      cases v with
      | nil =>
        rw [List.getLast?_concat, Option.some.injEq] at hc
        rw [← hc] at hq
        exact absurd hq (by decide)
      | cons d v => exact ⟨(d :: v).dropLast, by rw [List.dropLast_append_of_ne_nil (by simp), List.dropLast_cons_cons]⟩
    · exact ⟨v, rfl⟩
  · exact ⟨v, rfl⟩

end Glob

namespace Header

open Text (isBlank allBlank rows)

/-! ## Brackets inside a list -/

/-- The patterns of a torn list: those before the last one in front of the bracket stay, and that one goes
on, with its marks and the bracket, up to the next comma. -/
theorem ofValue_torn {ps : List Text} {p : Text} (h : ∀ i ∈ ps ++ [p], ',' ∉ i) (b : Text) :
    Glob.ofValue (some (.text (flowList (ps ++ [p]) ++ b ++ [']']))) =
      ps.filter (!·.isEmpty) ++ Glob.clean (Text.fields ',' (quoted p ++ ']' :: b)) := by
  have hlist : flowList (ps ++ [p]) ++ b ++ [']'] =
      '[' :: (Text.join [',', ' '] ((ps ++ [p]).map quoted) ++ ']' :: b) ++ [']'] := by simp [flowList]
  rw [hlist, ofValue_brackets]
  cases ps with
  | nil => rfl
  | cons q ps =>
    have hjoin : Text.join [',', ' '] (((q :: ps) ++ [p]).map quoted) ++ ']' :: b =
        Text.join [',', ' '] ((q :: ps).map quoted) ++ ',' :: ' ' :: (quoted p ++ ']' :: b) := by
      rw [List.map_append, Text.join_append _ (by simp) (by simp)]
      simp [Text.join]
    rw [hjoin, Text.fields_append_cons, Glob.clean_append, Glob.clean_fields_cons_blank (by decide) (by decide),
      Glob.clean_fields_flow fun i hi => h i (List.mem_append_left _ hi)]

theorem exists_marked_pattern {a : Text} (ha : globItems a ≠ []) (b : Text) :
    ∃ p ∈ Glob.ofValue (some (.text (flowList (globItems a) ++ b ++ [']']))), ['"', ']'] <:+: p := by
  obtain ⟨ps, p, hp⟩ := (List.eq_nil_or_concat (globItems a)).resolve_left ha
  rw [List.concat_eq_append] at hp
  have hcomma : ∀ i ∈ ps ++ [p], ',' ∉ i := by
    rw [← hp]
    exact fun i => comma_not_mem_globItems
  obtain ⟨f, fs, hf⟩ := List.exists_cons_of_ne_nil (Text.fields_ne_nil ',' b)
  have hfirst : ',' ∉ quoted p ++ [']'] := by simp [quoted, hcomma p (by simp)]
  have hfields : Text.fields ',' (quoted p ++ ']' :: b) = (quoted p ++ ']' :: f) :: fs := by
    simpa using Text.fields_append_of_not_mem hfirst hf
  have htrim : Text.trim (quoted p ++ ']' :: f) = '"' :: (p ++ ['"']) ++ ']' :: Text.trimRight f := by
    rw [Text.trim_append_cons (by decide), quoted, List.cons_append, Text.trimLeft_cons (by decide)]
  obtain ⟨w, hw⟩ := Glob.exists_stripQuotes_bracket (p ++ ['"']) (Text.trimRight f)
  refine ⟨p ++ ['"'] ++ ']' :: w, ?_, p, w, by simp⟩
  rw [hp, ofValue_torn hcomma, hfields]
  refine List.mem_append_right _ (List.mem_filter.mpr ⟨?_, by simp⟩)
  rw [List.map_cons, htrim, hw]
  exact List.mem_cons_self

theorem infix_of_mem_ofValue {inside p : Text}
    (h : p ∈ Glob.ofValue (some (.text ('[' :: inside ++ [']'])))) : p <:+: inside := by
  rw [ofValue_brackets, Glob.clean, List.mem_filter, List.mem_map] at h
  obtain ⟨⟨f, hf, rfl⟩, -⟩ := h
  exact (Glob.stripQuotes_isInfix _).trans ((Text.trim_isInfix f).trans (Text.infix_of_mem_fields hf))

/-- **Torn lists.** If a closing bracket stands inside a list, after some pattern, the header does not
give the same globs after repair, unless the bracket stands after a double mark. -/
theorem torn_list_changes_globs {t block rest : Text} {before after : List Text} {row a b : Text}
    (hc : cut? t = some (block, rest)) (hm : ofText t = .malformed) (hf : Text.OnlyLineFeeds block)
    (hrows : rows block = before ++ row :: after) (hl : GivesList before row after (a ++ ']' :: b))
    (hb : ¬ LeavesOpen (Text.join ['\n'] before)) (hname : "globs:".toList <+: Text.trimLeft row)
    (ha : ']' ∉ a) (hitems : globItems a ≠ []) (hmark : ¬ ['"', ']'] <:+: a ++ ']' :: b) :
    Glob.ofValue ((ofText (repair t)).get? "globs".toList) ≠
      Glob.ofValue (some (.text ('[' :: (a ++ ']' :: b) ++ [']']))) := by
  obtain ⟨c, hc'⟩ := exists_quoteGlobs_bracket b
  obtain ⟨p, hp, hmarked⟩ := exists_marked_pattern hitems c
  rw [get?_globs_requoted hc hm hf hrows hl hb, requoted_of_bracket hname ha, hc', ← List.append_assoc]
  intro h
  rw [h] at hp
  exact hmark (hmarked.trans (infix_of_mem_ofValue hp))

theorem quoteGlobs_of_not_infix {t : Text} (h : ¬ "globs:".toList <:+: t) : quoteGlobs 0 t = t := by
  have hskip : quoteGlobs 0 (t ++ []) = t ++ quoteGlobs 0 [] := by
    refine quoteGlobs_skip fun a ha _ => Option.eq_none_iff_forall_ne_some.mpr fun p hp => h ?_
    obtain ⟨gap, r, hlist, -⟩ := flowGlobs?_eq_some_iff.mp hp
    rw [List.append_nil] at hlist
    refine List.IsInfix.trans ?_ ha.isInfix
    rw [hlist]
    exact ⟨[], gap ++ '[' :: p.1 ++ ']' :: r, by simp⟩
  simpa [quoteGlobs] using hskip

/-- Behind a key with a blank before its colon a list stays as it is, with all its brackets, if no list
of its own starts in it. -/
theorem get?_globs_of_spaced_key {t block rest : Text} {before after : List Text} {row inside : Text}
    (hc : cut? t = some (block, rest)) (hm : ofText t = .malformed) (hf : Text.OnlyLineFeeds block)
    (hrows : rows block = before ++ row :: after) (hl : GivesList before row after inside)
    (hb : ¬ LeavesOpen (Text.join ['\n'] before)) (hname : ¬ "globs:".toList <+: Text.trimLeft row)
    (hinside : ¬ "globs:".toList <:+: inside) :
    (ofText (repair t)).get? "globs".toList = some (.text ('[' :: inside ++ [']'])) := by
  have hnone : ¬ "globs:".toList <:+: inside ++ [']'] := by
    rw [Text.infix_append_cons (by decide) (by simp), not_or]
    exact ⟨hinside, by simp⟩
  rw [get?_globs_requoted hc hm hf hrows hl hb, requoted, if_neg hname, quoteGlobs_of_not_infix hnone]
  rfl

/-! ## Lists open at the end of a line -/

/-- One of some lines starts a list of globs behind its colon and does not close it, and no other line
has its key. -/
structure OpensList (before : List Text) (row : Text) (after : List Text) (u : Text) : Prop where
  line : ∃ i gap, row = i ++ "globs:".toList ++ gap ++ '[' :: u ∧ allBlank i = true ∧ allBlank gap = true
  only : "globs".toList ∉ keysOf (before ++ after)
  unindented : isIndented row = false
  unclosed : ']' ∉ u

def evenedBelow (row : Text) (after : List Text) : Text := Text.join ['\n'] ((dedent row after).map spaceColon)

theorem evenedFrom_cases (row : Text) (after : List Text) :
    (evenedFrom row after = spaceColon row ∧ evenedBelow row after = []) ∨
      evenedFrom row after = spaceColon row ++ '\n' :: evenedBelow row after := by
  rw [evenedFrom, evenedBelow]
  cases (dedent row after).map spaceColon with
  | nil => exact Or.inl ⟨rfl, rfl⟩
  | cons b bs => exact Or.inr (Text.join_cons_cons '\n' (spaceColon row) b bs)

theorem OpensList.hasGlobs {before after : List Text} {row u : Text} (h : OpensList before row after u) :
    HasGlobs row := by
  obtain ⟨i, gap, rfl, hi, -⟩ := h.line
  exact ⟨i, [], gap ++ '[' :: u, by simp, hi, rfl⟩

theorem OpensList.exists_spaceColon {before after : List Text} {row u : Text} (h : OpensList before row after u) :
    ∃ i gap, spaceColon row = i ++ ("globs:".toList ++ gap ++ '[' :: u) ∧ allBlank i = true ∧ allBlank gap = true := by
  obtain ⟨i, gap, rfl, hi, hg⟩ := h.line
  obtain ⟨gap', hg', hs⟩ := exists_spaceColon_list hi (j := []) rfl hg ('[' :: u)
  have hrow : i ++ "globs:".toList ++ gap ++ '[' :: u = i ++ "globs".toList ++ [] ++ ':' :: (gap ++ '[' :: u) := by simp
  exact ⟨i, gap', by rw [hrow, hs]; simp, hi, hg'⟩

theorem valueOf_bracket {i gap : Text} (hi : allBlank i = true) (hg : allBlank gap = true) (r : Text)
    (after : List Text) : HasGlobs (i ++ "globs:".toList ++ gap ++ '[' :: r) ∧
      valueOf (i ++ "globs:".toList ++ gap ++ '[' :: r) after = .text (Text.trim ('[' :: r)) := by
  have hrow : i ++ "globs:".toList ++ gap ++ '[' :: r = i ++ "globs".toList ++ [] ++ ':' :: (gap ++ '[' :: r) := by simp
  have htrim : Text.trim ('[' :: r) = '[' :: Text.trimRight r := Text.trim_append_cons (by decide) [] r
  have hwritten : writtenOf (i ++ "globs:".toList ++ gap ++ '[' :: r) = '[' :: Text.trimRight r := by
    rw [hrow, writtenOf_append (colon_not_mem_key hi rfl), Text.trim_blank_append hg, htrim]
  refine ⟨⟨i, [], gap ++ '[' :: r, hrow, hi, rfl⟩, ?_⟩
  rw [valueOf, hwritten, if_pos (by simp), htrim]; rfl

section
variable {t block rest : Text} {before after : List Text} {row u : Text}
  (hc : cut? t = some (block, rest)) (hm : ofText t = .malformed) (hf : Text.OnlyLineFeeds block)
  (hrows : rows block = before ++ row :: after) (hl : OpensList before row after u)
  (hb : ¬ LeavesOpen (Text.join ['\n'] before))
include hc hm hf hrows hl hb

/-- What is under the key of globs hangs on the first row that comes of the line of the list. -/
theorem get?_globs_of_bracket {i gap : Text} (hi : allBlank i = true) (hg : allBlank gap = true) {r : Text}
    {ns : List Text}
    (hq : rows (quoteGlobs 0 (evenedFrom row after)) = (i ++ "globs:".toList ++ gap ++ '[' :: r) :: ns) :
    (ofText (repair t)).get? "globs".toList = some (.text (Text.trim ('[' :: r))) := by
  obtain ⟨q, ms, hrow, hget⟩ := get?_globs_repair hrows hl.hasGlobs hl.unindented hl.only hb hc hm hf
  obtain ⟨rfl, rfl⟩ := List.cons.inj (hq.symm.trans hrow)
  rw [hget (valueOf_bracket hi hg r []).1, (valueOf_bracket hi hg r _).2]

/-- **Lists that run on.** A list that is not closed on its line ends at the first closing bracket in the
rows below. The header has what then stands on the line under the key of globs. -/
theorem get?_globs_run_on {c d : Text} (hbelow : evenedBelow row after = c ++ ']' :: d) (hcn : ']' ∉ c) :
    (ofText (repair t)).get? "globs".toList = some (.text (Text.trim
      ((rows (flowList (globItems (u ++ '\n' :: c)) ++ quoteGlobs 0 d)).headD []))) := by
  obtain ⟨i, gap, hspace, hi, hg⟩ := hl.exists_spaceColon
  have hnew := newline_not_mem_spaceColon hrows
  rw [hspace, List.mem_append, not_or] at hnew
  have hfrom : evenedFrom row after =
      i ++ ("globs:".toList ++ gap ++ '[' :: (u ++ '\n' :: c) ++ ']' :: d) := by
    rcases evenedFrom_cases row after with ⟨-, hnil⟩ | hcons
    · exact absurd (hnil.symm.trans hbelow) (by simp)
    · rw [hcons, hspace, hbelow]
      simp
  have hinside : ']' ∉ u ++ '\n' :: c := by simp [hl.unclosed, hcn]
  obtain ⟨h, ns, hfirst⟩ := List.exists_cons_of_ne_nil (Text.rows_ne_nil
    (Text.join [',', ' '] ((globItems (u ++ '\n' :: c)).map quoted) ++ ']' :: quoteGlobs 0 d))
  have hlist : rows (flowList (globItems (u ++ '\n' :: c)) ++ quoteGlobs 0 d) = ('[' :: h) :: ns := by
    rw [flowList, List.append_assoc, List.singleton_append, List.cons_append, Text.rows_cons (by decide), hfirst]; rfl
  have hkey : '\n' ∉ i ++ "globs: ".toList := by simp [hnew.1]
  rw [hlist, List.headD_cons]
  have hblank : allBlank [' '] = true := by decide
  refine get?_globs_of_bracket hc hm hf hrows hl hb hi hblank (?_ : _ = _ :: ns)
  rw [hfrom, quoteGlobs_blank_append hi, quoteGlobs_list hg hinside, List.append_assoc, ← List.append_assoc, rows,
    Text.fields_append_of_not_mem hkey hlist]
  simp

/-- A list with its patterns on lines of their own comes to stand on one line. -/
example : (ofText (repair "---\nglobs: [\n  *.py,\n  lib/**\n]\n---\n".toList)).get? "globs".toList =
    some (.text "[\"*.py\", \"lib/**\"]".toList) := by
  decide

/-- Without a closing bracket in the rows below the list stays as it is. -/
theorem get?_globs_left_open (hbelow : ']' ∉ evenedBelow row after) :
    (ofText (repair t)).get? "globs".toList = some (.text (Text.trim ('[' :: u))) := by
  obtain ⟨i, gap, hspace, hi, hg⟩ := hl.exists_spaceColon
  have hnew := newline_not_mem_spaceColon hrows
  have hopen : ']' ∉ spaceColon row := by
    rw [hspace, List.mem_append, not_or]
    exact ⟨Text.not_mem_of_allBlank hi (by decide), bracket_not_mem_opening hg hl.unclosed⟩
  have hq : ∃ ns, rows (quoteGlobs 0 (evenedFrom row after)) = spaceColon row :: ns := by
    rcases evenedFrom_cases row after with ⟨hone, -⟩ | hcons
    · exact ⟨[], by rw [hone, quoteGlobs_of_not_mem hopen, rows, Text.fields_of_not_mem hnew]⟩
    · have hall : ']' ∉ spaceColon row ++ '\n' :: evenedBelow row after := by simp [hopen, hbelow]
      refine ⟨rows (evenedBelow row after), ?_⟩
      rw [hcons, quoteGlobs_of_not_mem hall, rows, Text.fields_append_cons, Text.fields_of_not_mem hnew]; rfl
  obtain ⟨ns, hns⟩ := hq
  rw [hspace, ← List.append_assoc, ← List.append_assoc] at hns
  exact get?_globs_of_bracket hc hm hf hrows hl hb hi hg hns

end

/-! ## Lists that earlier rows leave open -/

/-- A list that starts with a text and is not closed in it is open at its end, if its bracket can have
been seen. -/
theorem exists_open_of_append {t b gap inside rest : Text} (hg : allBlank gap = true) (hi : ']' ∉ inside)
    (h : t ++ b = "globs:".toList ++ gap ++ '[' :: inside ++ ']' :: rest) (hnone : flowGlobs? t = none)
    (hbracket : '[' ∈ t) : ∃ y, t = "globs:".toList ++ gap ++ '[' :: y ∧ ']' ∉ y := by
  have hname : '[' ∉ "globs:".toList ++ gap := by
    rw [List.mem_append, not_or]
    exact ⟨by decide, Text.not_mem_of_allBlank hg (by decide)⟩
  rcases List.append_eq_append_iff.mp h with ⟨e, hopening, -⟩ | ⟨e, ht, he⟩
  · rcases List.append_eq_append_iff.mp hopening.symm with ⟨e', ht, -⟩ | ⟨e', ht, he'⟩
    · exact absurd (by rw [ht]; simp [hbracket]) hname
    · cases e' with
      | nil => exact absurd (by rw [← List.append_nil ("globs:".toList ++ gap), ← ht]; exact hbracket) hname
      | cons c y =>
        obtain ⟨rfl, rfl⟩ := List.cons.inj he'
        exact ⟨y, ht, fun hm => hi (List.mem_append_left e hm)⟩
  · cases e with
    | nil => exact ⟨inside, by simpa using ht, hi⟩
    | cons c e =>
      obtain ⟨rfl, rfl⟩ := List.cons.inj he
      rw [flowGlobs?_eq_some_iff.mpr ⟨gap, e, ht, hg, hi, rfl⟩] at hnone
      cases hnone

theorem LeavesOpen.exists_gap {t : Text} (h : LeavesOpen t) : ∃ a gap y,
    t = a ++ ("globs:".toList ++ gap ++ '[' :: y) ∧ allBlank gap = true ∧ ']' ∉ y := by
  obtain ⟨a, v, rfl, hv, hclosed⟩ := h
  have hsplit : v.takeWhile isBlank ++ Text.trimLeft v = v := List.takeWhile_append_dropWhile
  cases hl : Text.trimLeft v with
  | nil => rw [hl] at hv; cases hv
  | cons c y =>
    rw [hl] at hv hsplit
    obtain rfl : c = '[' := by simpa using hv
    refine ⟨a, v.takeWhile isBlank, y, ?_, List.all_takeWhile, fun hm => hclosed ?_⟩
    · conv_lhs => rw [← hsplit]
      simp only [List.append_assoc]
    · rw [← hsplit]
      simp [hm]

/-- A text that leaves a list open is quoted up to where that list starts. -/
theorem LeavesOpen.exists_start {t : Text} (h : LeavesOpen t) : ∃ x gap y,
    t = x ++ ("globs:".toList ++ gap ++ '[' :: y) ∧ allBlank gap = true ∧ ']' ∉ y ∧
      ∀ b, quoteGlobs 0 (t ++ b) = quoteGlobs 0 x ++ quoteGlobs 0 ("globs:".toList ++ gap ++ '[' :: y ++ b) := by
  -- In front stands a list that is closed, a character that stays, or the open list itself.
  induction hn : t.length using Nat.strong_induction_on generalizing t with
  | _ n ih =>
    subst hn
    obtain ⟨a, gap, y, rfl, hg, hy⟩ := h.exists_gap
    cases hm : flowGlobs? (a ++ ("globs:".toList ++ gap ++ '[' :: y)) with
    | some p =>
      -- The open list starts behind a list that is closed.
      obtain ⟨gap', rest, hlist, hg', hi, -⟩ := flowGlobs?_eq_some_iff.mp hm
      have hclosed : a ++ "globs:".toList ++ (gap ++ '[' :: y) =
          "globs:".toList ++ gap' ++ '[' :: p.1 ++ ']' :: rest := by rw [← hlist]; simp
      rcases Text.occurrence_append_cons (by decide) hclosed with ⟨z, -, hz⟩ | ⟨z, hz, -⟩
      · have hmem : ']' ∈ gap ++ '[' :: y := by rw [hz]; simp
        exact absurd hmem (by simp [hy, Text.not_mem_of_allBlank hg (show isBlank ']' = false by decide)])
      · have hopen : LeavesOpen rest := by
          rw [hz, List.append_assoc, ← List.append_assoc "globs:".toList]
          exact (leavesOpen_of_gap hg hy).append_left z
        obtain ⟨x, gap₁, y₁, hrest, hg₁, hy₁, hquote⟩ := ih rest.length (by rw [hlist]; simp; omega) hopen rfl
        refine ⟨"globs:".toList ++ gap' ++ '[' :: p.1 ++ ']' :: x, gap₁, y₁, ?_, hg₁, hy₁, fun b => ?_⟩
        · rw [hlist, hrest]
          simp only [List.append_assoc, List.cons_append]
        · rw [hlist, List.append_assoc, List.cons_append, quoteGlobs_list hg' hi, quoteGlobs_list hg' hi, hquote]
          simp only [List.append_assoc]
    | none =>
      by_cases hall : ∀ b, flowGlobs? (a ++ ("globs:".toList ++ gap ++ '[' :: y) ++ b) = none
      · cases a with
        | nil => exact ⟨[], gap, y, rfl, hg, hy, fun b => rfl⟩
        | cons c a =>
          have hopen := (leavesOpen_of_gap hg hy).append_left a
          obtain ⟨x, gap₁, y₁, hrest, hg₁, hy₁, hquote⟩ := ih _ (by simp) hopen rfl
          have hfirst : flowGlobs? (c :: x) = none := by
            refine Option.eq_none_iff_forall_ne_some.mpr fun p hp => ?_
            rw [List.cons_append, hrest, ← List.cons_append, flowGlobs?_append_of_some hp] at hm
            cases hm
          refine ⟨c :: x, gap₁, y₁, by rw [List.cons_append, hrest]; rfl, hg₁, hy₁, fun b => ?_⟩
          have hnone := hall b
          rw [List.cons_append, List.cons_append] at hnone ⊢
          rw [quoteGlobs_of_none hnone, hquote, quoteGlobs_of_none hfirst, List.cons_append]
      · simp only [not_forall] at hall
        obtain ⟨b, hb⟩ := hall
        obtain ⟨p, hp⟩ := Option.ne_none_iff_exists'.mp hb
        obtain ⟨gap', rest, hlist, hg', hi, -⟩ := flowGlobs?_eq_some_iff.mp hp
        obtain ⟨y₁, ht, hy₁⟩ := exists_open_of_append hg' hi hlist hm (by simp)
        exact ⟨[], gap', y₁, ht, hg', hy₁, fun b => by rw [ht]; rfl⟩

/-- **Rows that leave a list open.** The list ends at the first closing bracket in the rows below, and
everything up to there is taken for its patterns. Without such a bracket the list stays as it is, and so
do all rows below. -/
theorem repairBlock_of_leavesOpen {block : Text} {above below : List Text}
    (hrows : (dedent [] (rows block)).map spaceColon = above ++ below) (hne : below ≠ [])
    (ho : LeavesOpen (Text.join ['\n'] above)) : ∃ x gap y,
      Text.join ['\n'] above = x ++ ("globs:".toList ++ gap ++ '[' :: y) ∧ allBlank gap = true ∧ ']' ∉ y ∧
        (∀ c d, Text.join ['\n'] below = c ++ ']' :: d → ']' ∉ c → repairBlock block =
          quoteGlobs 0 x ++ "globs: ".toList ++ flowList (globItems (y ++ '\n' :: c)) ++ quoteGlobs 0 d) ∧
        (']' ∉ Text.join ['\n'] below → repairBlock block =
          quoteGlobs 0 x ++ "globs:".toList ++ gap ++ '[' :: y ++ '\n' :: Text.join ['\n'] below) := by
  have habove : above ≠ [] := by
    rintro rfl
    obtain ⟨a, v, h, -⟩ := ho
    exact absurd h (by simp [Text.join])
  have hblock : repairBlock block = quoteGlobs 0 (Text.join ['\n'] above ++ '\n' :: Text.join ['\n'] below) := by
    rw [repairBlock_eq, evened, hrows, Text.join_append _ habove hne]
    simp
  obtain ⟨x, gap, y, habs, hgap, hy, hquote⟩ := ho.exists_start
  rw [hquote] at hblock
  refine ⟨x, gap, y, habs, hgap, hy, fun c d hcd hcn => ?_, fun hn => ?_⟩
  · have hlist : "globs:".toList ++ gap ++ '[' :: y ++ '\n' :: (c ++ ']' :: d) =
        "globs:".toList ++ gap ++ '[' :: (y ++ '\n' :: c) ++ ']' :: d := by simp
    have hinside : ']' ∉ y ++ '\n' :: c := by simp [hy, hcn]
    rw [hblock, hcd, hlist, quoteGlobs_list hgap hinside]
    simp
  · have hopen : ']' ∉ "globs:".toList ++ gap ++ '[' :: y ++ '\n' :: Text.join ['\n'] below := by
      have hopening := bracket_not_mem_opening hgap hy
      rw [List.mem_append, not_or]
      exact ⟨hopening, by simp [hn]⟩
    rw [hblock, quoteGlobs_of_not_mem hopen]
    simp

end Header
end AgentRules
