import Mathlib
import AgentRules.Proofs.Header.Indentation
import AgentRules.Proofs.Header.Repair

/-!
# Repair settles

A header whose lines end with line feeds, with or without carriage returns, can be read once it has
been repaired, and then there is nothing left to repair. The first two repairs work row by row.
Quoting a list of globs can join rows, but what comes between two marks stays in place there: of a
list, only blanks and quotation marks at the ends of its items are taken away. Main statement:
`repair_settles`.
-/

namespace AgentRules.Header

open Text (isBlank allBlank isQuote rows inkedRows PlainBreaks StaysPlain)

/-! ## Row by row -/

theorem isMisplaced_congr {p q : Text} (h : endsWithColon p = endsWithColon q) (l : Text) :
    isMisplaced p l = isMisplaced q l := by
  rw [isMisplaced, isMisplaced, h]

theorem not_misplaced_of_ink {c : Char} (hc : isBlank c = false) (p r : Text) : isMisplaced p (c :: r) = false := by
  simp [isMisplaced, isIndented_of_ink hc]

theorem trim_not_misplaced (p l : Text) : isMisplaced p (Text.trim l) = false := by
  cases h : Text.trim l with
  | nil => simp [isMisplaced, isIndented]
  | cons c r => exact not_misplaced_of_ink (Text.head?_trim (t := l) c (by rw [h]; rfl)) p r

theorem wellIndented_dedent (ls : List Text) : ∀ p : Text,
    wellIndented p ((dedent p ls).filter (!allBlank ·)) = true := by
  induction ls with
  | nil => intro p; rfl
  | cons l ls ih =>
    intro p
    rw [dedent]
    by_cases hb : allBlank l = true
    · rw [if_pos hb, List.filter_cons_of_neg (by simp [hb]), ih]
    · rw [if_neg hb]
      by_cases hm : isMisplaced p l = true
      · simp only [hm, ite_true]
        rw [List.filter_cons_of_pos (by simpa [Text.allBlank_trim] using hb), wellIndented, trim_not_misplaced, ih]
        rfl
      · simp only [hm, Bool.false_eq_true, ite_false]
        rw [List.filter_cons_of_pos (by simpa using hb), wellIndented, ih]
        simpa using hm

theorem endsWithColon_spaceColon (l : Text) : endsWithColon (spaceColon l) = endsWithColon l := by
  obtain h | ⟨w, ws, c, r, hl, -, hc, h⟩ := spaceColon_cases l
  · rw [h]
  · have hleft : w :: ws ++ ':' :: c :: r = (w :: ws ++ [':']) ++ c :: r := by simp
    have hright : w :: ws ++ ':' :: ' ' :: c :: r = (w :: ws ++ [':', ' ']) ++ c :: r := by simp
    rw [h, hl, hleft, hright, endsWithColon_append_cons hc, endsWithColon_append_cons hc]

theorem allBlank_spaceColon (l : Text) : allBlank (spaceColon l) = allBlank l := by
  obtain h | ⟨w, ws, c, r, hl, -, hc, h⟩ := spaceColon_cases l
  · rw [h]
  · rw [h, hl]
    have hcolon : isBlank ':' = false := by decide
    simp [allBlank, hcolon]

theorem isMisplaced_spaceColon (p l : Text) : isMisplaced p (spaceColon l) = isMisplaced p l := by
  obtain h | ⟨w, ws, c, r, hl, hw, -, h⟩ := spaceColon_cases l
  · rw [h]
  · -- A word character is neither a space nor a tab.
    have h₁ : w ≠ ' ' := fun e => absurd (hw ' ' (by simp [e])) (by decide)
    have h₂ : w ≠ '\t' := fun e => absurd (hw '\t' (by simp [e])) (by decide)
    rw [h, hl]
    simp [isMisplaced, isIndented, h₁, h₂]

theorem wellIndented_map_spaceColon (ls : List Text) : ∀ {p q : Text}, endsWithColon p = endsWithColon q →
    wellIndented p ((ls.map spaceColon).filter (!allBlank ·)) = wellIndented q (ls.filter (!allBlank ·)) := by
  induction ls with
  | nil => intro p q _; rfl
  | cons l ls ih =>
    intro p q h
    rw [List.map_cons]
    by_cases hb : allBlank l = true
    · rw [List.filter_cons_of_neg (by simp [allBlank_spaceColon, hb]), List.filter_cons_of_neg (by simp [hb]), ih h]
    · rw [List.filter_cons_of_pos (by simp [allBlank_spaceColon, hb]), List.filter_cons_of_pos (by simp [hb]),
        wellIndented, wellIndented, isMisplaced_spaceColon, isMisplaced_congr h, ih (endsWithColon_spaceColon l)]

theorem staysPlain_spaceColon (l : Text) : StaysPlain l (spaceColon l) := by
  obtain h | ⟨w, ws, c, r, hl, -, hc, h⟩ := spaceColon_cases l
  · rw [h]
    exact fun _ hs => hs
  · intro s hs
    have hcolon : isBlank ':' = false := by decide
    have hleft : l ++ s = (w :: ws) ++ ':' :: (c :: r ++ s) := by rw [hl]; simp
    have hright : spaceColon l ++ s = (w :: ws) ++ ':' :: ' ' :: (c :: r ++ s) := by rw [h]; simp
    rw [hleft, Text.plainBreaks_append_ink hcolon] at hs
    rw [hright, Text.plainBreaks_append_ink hcolon]
    exact ⟨hs.1, (Text.plainBreaks_cons (by decide)).mpr hs.2⟩

/-- A block after the first two repairs. -/
def evened (block : Text) : Text := Text.join ['\n'] ((dedent [] (rows block)).map spaceColon)

theorem plainBreaks_evened {block : Text} (h : PlainBreaks block) : PlainBreaks (evened block) := by
  have hrows : List.Forall₂ StaysPlain (rows block) ((dedent [] (rows block)).map spaceColon) := by
    rw [List.forall₂_map_right_iff]
    refine (forall₂_dedent (R := StaysPlain) (fun _ _ hs => hs) (fun _ _ _ _ hs => hs.trim) (rows block) []).imp ?_
    exact fun l m hm => hm.trans (staysPlain_spaceColon m)
  refine Text.plainBreaks_join hrows ?_
  rw [rows, Text.join_fields]
  exact h

theorem inPlace_evened (block : Text) : inPlace .start false (evened block) = true := by
  rw [inPlace_eq_wellIndented, inkedRows, evened, rows_join_repaired, wellIndented_map_spaceColon _ rfl,
    wellIndented_dedent]

/-! ## Between marks -/

def isMark (c : Char) : Bool := isQuote c || c = ','

/-- A property of what may stand between two marks. A text with a mark has it if both sides of the
mark have it. -/
structure CutAtMarks (Q : Text → Prop) : Prop where
  nil : Q []
  space : Q [' ']
  cut : ∀ {x : Char}, isMark x = true → ∀ a b : Text, Q (a ++ x :: b) ↔ Q a ∧ Q b
  trim : ∀ t : Text, Q t → Q (Text.trim t)

section
variable {Q : Text → Prop} (hQ : CutAtMarks Q)
include hQ

theorem CutAtMarks.of_mem : ∀ {ts : List Text}, Q (Text.join [','] ts) → ∀ t ∈ ts, Q t
  | [t], h, u, hu => by
    rw [List.mem_singleton.mp hu]
    exact h
  | t :: t' :: ts, h, u, hu => by
    rw [Text.join_cons_cons, hQ.cut (by decide)] at h
    rcases List.mem_cons.mp hu with hu | hu
    · rw [hu]; exact h.1
    · exact CutAtMarks.of_mem h.2 u hu

theorem CutAtMarks.dropQuotes {t : Text} (h : Q t) : Q (t.dropWhile isQuote) := by
  induction t with
  | nil => exact h
  | cons c t ih =>
    by_cases hc : isQuote c = true
    · have hmark : isMark c = true := by simp [isMark, hc]
      rw [List.dropWhile_cons_of_pos hc]
      exact ih ((hQ.cut hmark [] t).mp h).2
    · rw [List.dropWhile_cons_of_neg hc]
      exact h

theorem CutAtMarks.dropQuotes_right {t : Text} (h : Q t) : Q (t.reverse.dropWhile isQuote).reverse := by
  induction t using List.reverseRecOn with
  | nil => exact h
  | append_singleton t c ih =>
    rw [List.reverse_concat]
    by_cases hc : isQuote c = true
    · have hmark : isMark c = true := by simp [isMark, hc]
      rw [List.dropWhile_cons_of_pos hc]
      exact ih ((hQ.cut hmark t []).mp h).1
    · rw [List.dropWhile_cons_of_neg hc, List.reverse_cons, List.reverse_reverse]
      exact h

theorem CutAtMarks.globItems {inside : Text} (h : Q inside) : ∀ i ∈ globItems inside, Q i := by
  intro i hi
  rw [Header.globItems, List.mem_filter, List.mem_map] at hi
  obtain ⟨⟨f, hf, hfi⟩, -⟩ := hi
  have hfield : Q f := hQ.of_mem (by rw [Text.join_fields]; exact h) f hf
  rw [← hfi]
  exact hQ.dropQuotes_right (hQ.dropQuotes (hQ.trim f hfield))

theorem CutAtMarks.quoted_append {i u : Text} (hi : Q i) (hu : Q u) : Q (quoted i ++ u) := by
  have hq : quoted i ++ u = [] ++ '"' :: (i ++ '"' :: u) := by simp [quoted]
  rw [hq, hQ.cut (by decide), hQ.cut (by decide)]
  exact ⟨hQ.nil, hi, hu⟩

theorem CutAtMarks.join_quoted : ∀ {is : List Text}, (∀ i ∈ is, Q i) → Q (Text.join [',', ' '] (is.map quoted))
  | [], _ => hQ.nil
  | [i], h => by
    have hi := hQ.quoted_append (h i (by simp)) hQ.nil
    rwa [List.append_nil] at hi
  | i :: j :: is, h => by
    have ih := CutAtMarks.join_quoted fun k (hk : k ∈ j :: is) => h k (List.mem_cons_of_mem i hk)
    rw [List.map_cons, Text.join_cons _ (by simp), List.append_assoc]
    refine hQ.quoted_append (h i (by simp)) ((hQ.cut (by decide) [] _).mpr ⟨hQ.nil, ?_⟩)
    -- The blank after the comma stands before the mark that the rest starts with.
    obtain ⟨u, hu⟩ : ∃ u, Text.join [',', ' '] ((j :: is).map quoted) = '"' :: u := by
      cases is with
      | nil => exact ⟨_, rfl⟩
      | cons k is => exact ⟨_, by rw [List.map_cons, Text.join_cons _ (by simp)]; rfl⟩
    rw [hu] at ih ⊢
    exact (hQ.cut (by decide) [' '] u).mpr ⟨hQ.space, ((hQ.cut (by decide) [] u).mp ih).2⟩

theorem CutAtMarks.list {inside : Text} (h : Q inside) :
    Q (Text.join [',', ' '] ((Header.globItems inside).map quoted)) :=
  hQ.join_quoted (hQ.globItems h)

end

theorem ink_of_isMark {x : Char} (h : isMark x = true) : isBlank x = false ∧ x ≠ '-' ∧ x ≠ ':' := by
  simp only [isMark, isQuote, Bool.or_eq_true, decide_eq_true_eq] at h
  rcases h with (rfl | rfl) | rfl <;> decide

theorem cutAtMarks_plainBreaks : CutAtMarks PlainBreaks where
  nil := trivial
  space := by decide
  cut hx _ _ := Text.plainBreaks_append_ink (ink_of_isMark hx).1
  trim t h := by
    have := Text.PlainBreaks.trim (a := t) (s := []) (by rwa [List.append_nil])
    rwa [List.append_nil] at this

/-- Past a mark, and up to a mark. -/
def InPlaceBetween (t : Text) : Prop := inPlace .within false (t ++ [',']) = true

theorem inPlaceBetween_cut {x : Char} (hx : isMark x = true) (a b : Text) :
    InPlaceBetween (a ++ x :: b) ↔ InPlaceBetween a ∧ InPlaceBetween b := by
  obtain ⟨hink, hdash, hcolon⟩ := ink_of_isMark hx
  rw [InPlaceBetween, InPlaceBetween, InPlaceBetween, List.append_assoc, List.cons_append, inPlace_append_cons _ _ hink,
    inPlace_snoc_congr _ _ (x := x) (y := ',') hink (by decide) hdash (by decide), Bool.and_eq_true,
    decide_eq_false hcolon]

theorem inPlace_within_of_ink {s : Spot} {k : Bool} {c : Char} (hc : isBlank c = false) {r : Text}
    (h : inPlace s k (c :: r) = true) : inPlace .within k (c :: r) = true := by
  rw [inPlace_ink _ _ hc, Bool.and_eq_true] at h
  rw [inPlace_ink _ _ hc, h.2]; rfl

/-- Without the blanks before it, a text cannot stand in an indentation. -/
theorem inPlace_trimLeft (t : Text) : ∀ {s : Spot}, inPlace s false (t ++ [',']) = true →
    inPlace .within false (Text.trimLeft t ++ [',']) = true := by
  induction t with
  | nil => intro s _; rfl
  | cons c t ih =>
    intro s h
    by_cases hc : isBlank c = true
    · rw [Text.trimLeft_cons_blank hc]
      by_cases hn : c = '\n'
      · rw [hn, List.cons_append, inPlace_newline] at h
        exact ih h
      · rw [List.cons_append, inPlace_blank _ _ hn hc] at h
        exact ih h
    · have hc : isBlank c = false := by simpa using hc
      rw [Text.trimLeft_cons hc]
      exact inPlace_within_of_ink hc h

theorem inPlaceBetween_trimRight {t : Text} (h : InPlaceBetween t) : InPlaceBetween (Text.trimRight t) := by
  obtain ⟨r, hr⟩ := Text.trimRight_isPrefix t
  rcases List.eq_nil_or_concat (Text.trimRight t) with ht | ⟨a, z, ht⟩
  · rw [ht]; rfl
  · rw [List.concat_eq_append] at ht
    have hz : isBlank z = false := Text.getLast?_trimRight (t := t) z (by rw [ht, List.getLast?_concat]; rfl)
    rw [InPlaceBetween, ← hr, ht, List.append_assoc, List.append_assoc, List.singleton_append,
      inPlace_append_cons _ _ hz, Bool.and_eq_true] at h
    rw [InPlaceBetween, ht, List.append_assoc, List.singleton_append, inPlace_append_cons _ _ hz, h.1]; rfl

theorem cutAtMarks_inPlaceBetween : CutAtMarks InPlaceBetween where
  nil := rfl
  space := rfl
  cut hx a b := inPlaceBetween_cut hx a b
  trim t h := inPlaceBetween_trimRight (inPlace_trimLeft t h)

/-! ## Quoting -/

theorem list_eq (gap inside rest : Text) : "globs:".toList ++ gap ++ '[' :: inside ++ ']' :: rest =
    ("globs:".toList ++ gap) ++ '[' :: (inside ++ ']' :: rest) := by
  simp only [List.append_assoc, List.cons_append]

theorem quotedList_eq (is : List Text) (u : Text) : "globs: ".toList ++ flowList is ++ u =
    "globs: ".toList ++ '[' :: (Text.join [',', ' '] (is.map quoted) ++ ']' :: u) := by
  simp only [flowList, List.append_assoc, List.cons_append, List.nil_append]

/-- A line feed stays where it is if it comes first, so a carriage return keeps its own. -/
theorem plainBreaks_quoteGlobs (t : Text) :
    (t.head? = some '\n' → (quoteGlobs 0 t).head? = some '\n') ∧ (PlainBreaks t → PlainBreaks (quoteGlobs 0 t)) := by
  refine quoteGlobs_induction
    (P := fun t u => (t.head? = some '\n' → u.head? = some '\n') ∧ (PlainBreaks t → PlainBreaks u)) ?_ ?_ ?_ t
  · exact ⟨id, id⟩
  · intro gap inside rest u _ _ ih
    refine ⟨fun h => absurd h (by simp), fun h => ?_⟩
    rw [list_eq, Text.plainBreaks_append_ink (by decide), Text.plainBreaks_append_ink (by decide)] at h
    rw [quotedList_eq, Text.plainBreaks_append_ink (by decide), Text.plainBreaks_append_ink (by decide)]
    exact ⟨by decide, cutAtMarks_plainBreaks.list h.2.1, ih.2 h.2.2⟩
  · intro c r u ih
    exact ⟨id, fun h => ⟨fun hc => (h.1 hc).imp_right fun hr => ⟨hr.1, ih.1 hr.2⟩, ih.2 h.2⟩⟩

/-- Past a bracket nothing is left to be told of what came before it. -/
theorem inPlace_list (s : Spot) (k : Bool) (a b c : Text) : inPlace s k (a ++ '[' :: (b ++ ']' :: c)) = true ↔
    inPlace s k (a ++ ['[']) = true ∧ InPlaceBetween b ∧ inPlace .within false c = true := by
  rw [InPlaceBetween, inPlace_append_cons s k (x := '[') (by decide) a, Bool.and_eq_true,
    inPlace_append_cons _ _ (x := ']') (by decide) b, Bool.and_eq_true,
    inPlace_snoc_congr _ _ (x := ']') (y := ',') (by decide) (by decide) (by decide) (by decide)]
  exact Iff.rfl

theorem inPlace_quoteGlobs (t : Text) : ∀ s k, inPlace s k t = true → inPlace s k (quoteGlobs 0 t) = true := by
  refine quoteGlobs_induction (P := fun t u => ∀ s k, inPlace s k t = true → inPlace s k u = true) ?_ ?_ ?_ t
  · exact fun _ _ h => h
  · intro gap inside rest u _ _ ih s k h
    rw [list_eq, inPlace_list] at h
    rw [quotedList_eq, inPlace_list]
    refine ⟨?_, cutAtMarks_inPlaceBetween.list h.2.1, ih _ _ h.2.2⟩
    -- Both texts start with the same letter, and what follows it there is in one row.
    have hfirst := h.1
    have hg : isBlank 'g' = false := by decide
    have hword : "globs:".toList = 'g' :: "lobs:".toList := rfl
    have hwide : "globs: ".toList = 'g' :: "lobs: ".toList := rfl
    rw [hword, List.cons_append, List.cons_append, inPlace_ink _ _ hg, Bool.and_eq_true] at hfirst
    rw [hwide, List.cons_append, inPlace_ink _ _ hg, hfirst.1]
    decide
  · intro c r u ih s k h
    by_cases hn : c = '\n'
    · rw [hn, inPlace_newline] at h ⊢
      exact ih _ _ h
    · by_cases hc : isBlank c = true
      · rw [inPlace_blank _ _ hn hc] at h ⊢
        exact ih _ _ h
      · have hc : isBlank c = false := by simpa using hc
        rw [inPlace_ink _ _ hc, Bool.and_eq_true] at h ⊢
        exact ⟨h.1, ih _ _ h.2⟩

/-! ## Blocks and documents -/

theorem repairBlock_eq (block : Text) : repairBlock block = quoteGlobs 0 (evened block) := quoteAllGlobs_eq _

theorem plainBreaks_repairBlock {block : Text} (h : PlainBreaks block) : PlainBreaks (repairBlock block) := by
  rw [repairBlock_eq]
  exact (plainBreaks_quoteGlobs _).2 (plainBreaks_evened h)

theorem inPlace_repairBlock (block : Text) : inPlace .start false (repairBlock block) = true := by
  rw [repairBlock_eq]
  exact inPlace_quoteGlobs _ _ _ (inPlace_evened block)

theorem withoutReturn_of_plainBreaks {t : Text} (h : PlainBreaks t) : withoutReturn t = t := by
  rcases withoutReturn_cases t with ht | ht
  · exact ht
  · rw [ht] at h
    exact absurd h (Text.not_plainBreaks_return _)

/-- **Repair settles.** A repaired document has a header that can be read, and repairing it again
changes nothing. -/
theorem repair_settles {t : Text} (h : ∀ block rest, cut? t = some (block, rest) → PlainBreaks block) :
    (∃ fs, ofText (repair t) = .fields fs) ∧ repair (repair t) = repair t := by
  have hfields : ∃ fs, ofText (repair t) = .fields fs := by
    cases ht : ofText t with
    | absent =>
      refine ⟨[("description".toList, .text []), ("alwaysApply".toList, .flag false)], ?_⟩
      rw [repair_of_absent ht, ofText, cut?_minimal]
      show ofBlock "description: \nalwaysApply: false".toList = _
      decide
    | malformed =>
      obtain ⟨block, rest, hc⟩ := cut?_of_malformed ht
      have hplain := plainBreaks_repairBlock (h block rest hc)
      rw [repair_of_malformed ht hc, ofText, cut?_repairBlock hc, withoutReturn_of_plainBreaks hplain]
      exact exists_fields_of_inPlace hplain (inPlace_repairBlock block)
    | fields fs => exact ⟨fs, by rw [repair_of_fields ht]; exact ht⟩
  obtain ⟨fs, hfs⟩ := hfields
  exact ⟨⟨fs, hfs⟩, repair_of_fields hfs⟩

/-- A stray indentation, a missing blank, and a list whose items go over the ends of lines. -/
theorem broken_list_settles :
    ofText "---\r\na:b\r\n  c: d\r\nglobs: ['x\r\n- y', \"z\r\n\"]\r\n---\r\n".toList = .malformed ∧
      (∃ fs, ofText (repair "---\r\na:b\r\n  c: d\r\nglobs: ['x\r\n- y', \"z\r\n\"]\r\n---\r\n".toList) = .fields fs) ∧
      repair (repair "---\r\na:b\r\n  c: d\r\nglobs: ['x\r\n- y', \"z\r\n\"]\r\n---\r\n".toList) =
        repair "---\r\na:b\r\n  c: d\r\nglobs: ['x\r\n- y', \"z\r\n\"]\r\n---\r\n".toList := by
  refine ⟨by decide, repair_settles fun block rest hc => ?_⟩
  have hblock : cut? "---\r\na:b\r\n  c: d\r\nglobs: ['x\r\n- y', \"z\r\n\"]\r\n---\r\n".toList =
      some ("a:b\r\n  c: d\r\nglobs: ['x\r\n- y', \"z\r\n\"]".toList, "\r\n".toList) := by decide
  rw [hblock, Option.some.injEq, Prod.mk.injEq] at hc
  rw [← hc.1]
  decide

end AgentRules.Header
