import Mathlib
import AgentRules.Proofs.Header.Repair
import AgentRules.Proofs.Scope

/-!
# Quoting lists of globs

Two sides of quoting: what becomes of the fields between the brackets of a list, and where a text may
be cut so that its pieces are quoted one by one. It may be cut after the first closing bracket if no
list is open there, and before a row that starts with the name of a list if none is left open by the
rows before. The first two repairs leave no list open that was not. Main statements:
`fields_join_globItems`, `bare_stripQuotes`, `quoteGlobs_append_bracket`, `quoteGlobs_append_row` and
`LeavesOpen.of_repaired`.
-/

namespace AgentRules.Header

open Text (isBlank allBlank isQuote)

/-! ## Items -/

theorem comma_not_mem_globItems {inside i : Text} (h : i ∈ globItems inside) : ',' ∉ i := by
  rw [globItems_eq, List.mem_filter, List.mem_map] at h
  obtain ⟨⟨f, hf, rfl⟩, -⟩ := h
  exact fun hc => Text.sep_not_mem_fields hf (((bare_isInfix _).trans (Text.trim_isInfix f)).subset hc)

theorem bracket_not_mem_list {inside : Text} (h : ']' ∉ inside) :
    ']' ∉ Text.join [',', ' '] ((globItems inside).map quoted) := by
  intro hm
  rcases Text.mem_join hm with hm | ⟨q, hq, hm⟩
  · exact absurd hm (by decide)
  · obtain ⟨i, hi, rfl⟩ := List.mem_map.mp hq
    have hne : ']' ≠ '"' := by decide
    simp only [quoted, List.mem_append, List.mem_cons, hne, List.not_mem_nil, or_false, false_or] at hm
    exact h ((infix_of_mem_globItems hi).subset hm)

/-- Every text but the first with a space before it. -/
def spacedOut : List Text → List Text
  | [] => []
  | t :: ts => t :: ts.map (' ' :: ·)

theorem fields_join_globItems {inside : Text} (h : globItems inside ≠ []) :
    Text.fields ',' (Text.join [',', ' '] ((globItems inside).map quoted)) =
      spacedOut ((globItems inside).map quoted) := by
  have hcomma : ∀ u ∈ (globItems inside).map quoted, ',' ∉ u := by
    intro u hu
    obtain ⟨i, hi, rfl⟩ := List.mem_map.mp hu
    simp [quoted, comma_not_mem_globItems hi]
  obtain ⟨i, is, hI⟩ := List.exists_cons_of_ne_nil h
  rw [hI, List.map_cons] at hcomma ⊢
  exact Glob.fields_join_quoted (fun u hu => hcomma u (List.mem_cons_of_mem _ hu)) _ (hcomma _ (by simp))

/-! ## Quotation marks at the ends -/

theorem bare_cons {c : Char} (h : isQuote c = true) (t : Text) : bare (c :: t) = bare t := by
  rw [bare, List.dropWhile_cons_of_pos h, ← bare]

theorem bare_snoc {c : Char} (h : isQuote c = true) (t : Text) : bare (t ++ [c]) = bare t := by
  rw [bare, bare, List.dropWhile_append]
  by_cases ht : t.dropWhile isQuote = []
  · simp [ht, h]
  · simp [ht, h]

/-- Taking one mark off each end first makes no difference. -/
theorem bare_stripQuotes (t : Text) : bare (Glob.stripQuotes t) = bare t := by
  have hlast : ∀ u : Text, bare (Glob.withoutLastQuote u) = bare u := by
    intro u
    unfold Glob.withoutLastQuote
    split
    · next c hc =>
      split
      · next hq =>
        conv_rhs => rw [← List.dropLast_append_getLast? c hc]
        exact (bare_snoc hq _).symm
      · rfl
    · rfl
  cases t with
  | nil => rfl
  | cons c r =>
    rw [Glob.stripQuotes_cons, hlast]
    split
    · next hq => exact (bare_cons hq r).symm
    · rfl

/-- No quotation mark stands at either end. -/
def NoQuotesAround (t : Text) : Prop :=
  (∀ c ∈ t.head?, isQuote c = false) ∧ ∀ c ∈ t.getLast?, isQuote c = false

theorem dropWhile_isQuote_eq_self_iff {t : Text} : t.dropWhile isQuote = t ↔ ∀ c ∈ t.head?, isQuote c = false := by
  rw [List.dropWhile_eq_self_iff]
  cases t <;> simp

theorem bare_eq_self_iff {t : Text} : bare t = t ↔ NoQuotesAround t := by
  have hlast : (t.reverse.dropWhile isQuote).reverse = t ↔ ∀ c ∈ t.getLast?, isQuote c = false := by
    rw [List.reverse_eq_iff, dropWhile_isQuote_eq_self_iff, List.head?_reverse]
  constructor
  · intro h
    have hfirst : t.dropWhile isQuote = t := by
      refine (List.dropWhile_suffix isQuote).eq_of_length_le ?_
      have hle := (List.dropWhile_suffix isQuote (l := (t.dropWhile isQuote).reverse)).length_le
      conv_lhs => rw [← h]
      simpa [bare] using hle
    rw [bare, hfirst] at h
    exact ⟨dropWhile_isQuote_eq_self_iff.mp hfirst, hlast.mp h⟩
  · rintro ⟨hh, hl⟩
    rw [bare, dropWhile_isQuote_eq_self_iff.mpr hh, hlast.mpr hl]

/-! ## Where a text can be cut -/

theorem flowGlobs?_of_head {c : Char} (h : c ≠ 'g') (r : Text) : flowGlobs? (c :: r) = none := by
  refine Option.eq_none_iff_forall_ne_some.mpr fun p hp => ?_
  obtain ⟨gap, rest, ht, -⟩ := flowGlobs?_eq_some_iff.mp hp
  exact h (List.cons.inj ht).1

/-- Where no list starts nothing is rewritten. -/
theorem quoteGlobs_skip {a b : Text} (h : ∀ a', a' <:+ a → a' ≠ [] → flowGlobs? (a' ++ b) = none) :
    quoteGlobs 0 (a ++ b) = a ++ quoteGlobs 0 b := by
  induction a with
  | nil => rfl
  | cons c a ih =>
    have hc := h (c :: a) (List.suffix_refl _) (by simp)
    rw [List.cons_append] at hc ⊢
    rw [quoteGlobs_of_none hc, ih fun a' ha => h a' (ha.trans (List.suffix_cons c a))]; rfl

theorem quoteGlobs_append_of_not_mem {a : Text} (h : 'g' ∉ a) (b : Text) :
    quoteGlobs 0 (a ++ b) = a ++ quoteGlobs 0 b := by
  refine quoteGlobs_skip fun a' ha hne => ?_
  obtain ⟨c, r, rfl⟩ := List.exists_cons_of_ne_nil hne
  exact flowGlobs?_of_head (fun e => h (ha.subset (by simp [e]))) _

theorem quoteGlobs_blank_append {i : Text} (hi : allBlank i = true) (b : Text) :
    quoteGlobs 0 (i ++ b) = i ++ quoteGlobs 0 b :=
  quoteGlobs_append_of_not_mem (Text.not_mem_of_allBlank hi (by decide)) b

theorem bracket_not_mem_opening {gap inside : Text} (hg : allBlank gap = true) (hi : ']' ∉ inside) :
    ']' ∉ "globs:".toList ++ gap ++ '[' :: inside := by
  simp only [List.mem_append, List.mem_cons, not_or]
  exact ⟨⟨by decide, Text.not_mem_of_allBlank hg (by decide)⟩, by decide, hi⟩

theorem flowGlobs?_append_bracket (a b : Text) : flowGlobs? (a ++ ']' :: b) = flowGlobs? (a ++ [']']) := by
  have hab : a ++ ']' :: b = (a ++ [']']) ++ b := by simp
  rw [hab]
  refine Option.ext fun ⟨inside, n⟩ => ⟨fun hm => ?_, fun hm => flowGlobs?_append_of_some hm b⟩
  rw [← hab] at hm
  obtain ⟨gap, rest, h, hg, hi, hn⟩ := flowGlobs?_eq_some_iff.mp hm
  rw [flowGlobs?_eq_some_iff]
  rcases List.append_eq_append_iff.mp h with ⟨u, hu, hr⟩ | ⟨u, rfl, hr⟩
  · cases u with
    | nil => exact ⟨gap, [], by rw [hu]; simp, hg, hi, hn⟩
    | cons c u =>
      rw [← (List.cons.inj hr).1] at hu
      exact absurd (by rw [hu]; simp) (bracket_not_mem_opening hg hi)
  · cases u with
    | nil => exact ⟨gap, [], by simp, hg, hi, hn⟩
    | cons c u =>
      rw [← (List.cons.inj hr).1]
      exact ⟨gap, u ++ [']'], by simp, hg, hi, hn⟩

/-- A text can be cut after a character if no list that starts before it goes on after it. -/
theorem quoteGlobs_append_after {a b : Text} {x : Char}
    (h : ∀ u, u <:+ a → flowGlobs? (u ++ x :: b) = flowGlobs? (u ++ [x])) :
    quoteGlobs 0 (a ++ x :: b) = quoteGlobs 0 (a ++ [x]) ++ quoteGlobs 0 b := by
  have hab : a ++ x :: b = (a ++ [x]) ++ b := by simp
  rw [hab, quoteGlobs_append_of fun a' hs hne => ?_]
  obtain ⟨u, y, rfl⟩ := (List.eq_nil_or_concat a').resolve_left hne
  rw [List.concat_eq_append] at hs ⊢
  obtain ⟨v, hv⟩ := hs
  rw [← List.append_assoc] at hv
  obtain ⟨rfl, hy⟩ := List.append_inj' hv rfl
  rw [hy, List.append_assoc, List.singleton_append, h u (List.suffix_append v u)]

/-- A text can be cut after any closing bracket. -/
theorem quoteGlobs_cut (a b : Text) : quoteGlobs 0 (a ++ ']' :: b) = quoteGlobs 0 (a ++ [']']) ++ quoteGlobs 0 b :=
  quoteGlobs_append_after fun u _ => flowGlobs?_append_bracket u b

theorem exists_quoteGlobs_bracket (a : Text) : ∃ b, quoteGlobs 0 (a ++ [']']) = b ++ [']'] := by
  have hlast : ∀ t : Text, (t = [] → quoteGlobs 0 t = []) ∧
      (t.getLast? = some ']' → (quoteGlobs 0 t).getLast? = some ']') := by
    refine quoteGlobs_induction
      (P := fun t u => (t = [] → u = []) ∧ (t.getLast? = some ']' → u.getLast? = some ']')) ⟨id, id⟩ ?_ ?_
    · intro gap inside rest u _ _ ih
      refine ⟨fun h => absurd h (by simp), fun h => ?_⟩
      cases rest with
      | nil => rw [ih.1 rfl, List.append_nil, flowList, List.getLast?_append, List.getLast?_concat]; rfl
      | cons c rest =>
        rw [List.getLast?_append_cons, List.getLast?_cons_cons] at h
        rw [List.getLast?_append, ih.2 h]; rfl
    · intro c r u ih
      refine ⟨fun h => absurd h (by simp), fun h => ?_⟩
      cases r with
      | nil => rwa [ih.1 rfl]
      | cons d r =>
        rw [List.getLast?_cons_cons] at h
        rw [List.getLast?_cons, ih.2 h]; rfl
  exact List.getLast?_eq_some_iff.mp ((hlast _).2 (by simp))

/-- A list of globs starts in a text and is not closed there. -/
def LeavesOpen (t : Text) : Prop :=
  ∃ a v, t = a ++ "globs:".toList ++ v ∧ (Text.trimLeft v).head? = some '[' ∧ ']' ∉ v

theorem LeavesOpen.append_left {t : Text} (h : LeavesOpen t) (a : Text) : LeavesOpen (a ++ t) := by
  obtain ⟨b, v, rfl, hv⟩ := h
  exact ⟨a ++ b, v, by simp, hv⟩

theorem LeavesOpen.name_infix {t : Text} (h : LeavesOpen t) : "globs:".toList <:+: t := by
  obtain ⟨a, v, rfl, -⟩ := h
  exact ⟨a, v, rfl⟩

theorem trimLeft_gap {gap : Text} (hg : allBlank gap = true) (b : Text) :
    Text.trimLeft (gap ++ '[' :: b) = '[' :: b := by
  rw [Text.trimLeft_append_cons (by decide), Text.trimLeft_of_allBlank hg, List.nil_append]

theorem leavesOpen_of_gap {gap b : Text} (hg : allBlank gap = true) (hb : ']' ∉ b) :
    LeavesOpen ("globs:".toList ++ gap ++ '[' :: b) := by
  refine ⟨[], gap ++ '[' :: b, by simp, by rw [trimLeft_gap hg]; rfl, ?_⟩
  rw [List.mem_append, List.mem_cons, not_or, not_or]
  exact ⟨Text.not_mem_of_allBlank hg (by decide), by decide, hb⟩

/-- Up to the first closing bracket nothing is rewritten if no list is open there. -/
theorem quoteGlobs_append_bracket {a : Text} (hn : ']' ∉ a) (ha : ¬ LeavesOpen a) (b : Text) :
    quoteGlobs 0 (a ++ ']' :: b) = a ++ ']' :: quoteGlobs 0 b := by
  rw [quoteGlobs_skip fun a' hs _ => ?_, quoteGlobs_of_none (flowGlobs?_of_head (by decide) b)]
  refine Option.eq_none_iff_forall_ne_some.mpr fun ⟨inside, n⟩ hp => ?_
  obtain ⟨gap, rest, h, hg, hi, -⟩ := flowGlobs?_eq_some_iff.mp hp
  obtain ⟨rfl, -⟩ := Text.eq_of_first (fun hm => hn (hs.subset hm)) (bracket_not_mem_opening hg hi) h
  obtain ⟨u, rfl⟩ := hs
  exact ha ((leavesOpen_of_gap hg hi).append_left u)

/-- What a line feed between the name of a list and its bracket can have after it. -/
theorem allBlank_of_gap {gap a e : Text} (hg : allBlank gap = true) (h : "globs:".toList ++ gap = a ++ '\n' :: e) :
    allBlank e = true := by
  rcases Text.occurrence_append_cons (p := "globs:".toList) (u := []) (by decide) h with ⟨z, -, hz⟩ | ⟨z, -, hz⟩
  · exact Text.allBlank_of_isInfix ⟨z ++ ['\n'], [], by rw [hz]; simp⟩ hg
  · exact absurd hz (by simp)

/-- A list that starts before a row goes on into the row only if it has been left open, or if the row
starts with its bracket. -/
theorem flowGlobs?_append_row {a b : Text} (ha : ¬ LeavesOpen a) (hb : (Text.trimLeft b).head? = some 'g') :
    flowGlobs? (a ++ '\n' :: b) = flowGlobs? a := by
  refine Option.ext fun ⟨inside, n⟩ => ⟨fun hm => ?_, fun hm => flowGlobs?_append_of_some hm _⟩
  obtain ⟨gap, rest, h, hg, hi, hn⟩ := flowGlobs?_eq_some_iff.mp hm
  rw [flowGlobs?_eq_some_iff]
  rcases List.append_eq_append_iff.mp h with ⟨u, hu, hr⟩ | ⟨u, rfl, hr⟩
  · exfalso
    cases u with
    | nil => exact absurd (List.cons.inj hr).1 (by decide)
    | cons c d =>
      obtain ⟨rfl, rfl⟩ := List.cons.inj hr
      -- The list is closed in the row: it is open at the end of `a`, or its bracket starts the row.
      rcases List.append_eq_append_iff.mp hu with ⟨e, rfl, he⟩ | ⟨e, hgap, he⟩
      · cases e with
        | nil => exact absurd (List.cons.inj he).1 (by decide)
        | cons c e =>
          obtain ⟨rfl, rfl⟩ := List.cons.inj he
          exact ha (leavesOpen_of_gap hg fun hm => hi (by simp [hm]))
      · cases e with
        | nil => exact absurd (List.cons.inj he).1 (by decide)
        | cons c e =>
          obtain ⟨rfl, rfl⟩ := List.cons.inj he
          have htrim : Text.trimLeft ((e ++ '[' :: inside) ++ ']' :: rest) = '[' :: (inside ++ ']' :: rest) := by
            rw [List.append_assoc, List.cons_append, trimLeft_gap (allBlank_of_gap hg hgap)]
          change (Text.trimLeft ((e ++ '[' :: inside) ++ ']' :: rest)).head? = some 'g' at hb
          rw [htrim] at hb
          exact absurd hb (by simp)
  · cases u with
    | nil => exact absurd (List.cons.inj hr).1 (by decide)
    | cons c u =>
      rw [← (List.cons.inj hr).1]
      exact ⟨gap, u, by simp, hg, hi, hn⟩

theorem quoteGlobs_append_row {a b : Text} (ha : ¬ LeavesOpen a) (hb : (Text.trimLeft b).head? = some 'g') :
    quoteGlobs 0 (a ++ '\n' :: b) = quoteGlobs 0 a ++ '\n' :: quoteGlobs 0 b := by
  have hn : ']' ∉ ['\n'] := by decide
  rw [quoteGlobs_append_after fun u hs => ?_, quoteGlobs_append hn, List.append_assoc, List.singleton_append]
  obtain ⟨v, rfl⟩ := hs
  rw [flowGlobs?_append hn, flowGlobs?_append_row (fun ho => ha (ho.append_left v)) hb]

/-! ## Lists left open -/

/-- A text without its blanks. -/
def inkOf (t : Text) : Text := t.filter (!isBlank ·)

theorem inkOf_append (a b : Text) : inkOf (a ++ b) = inkOf a ++ inkOf b := List.filter_append ..

theorem inkOf_of_allBlank {b : Text} (hb : allBlank b = true) : inkOf b = [] :=
  List.filter_eq_nil_iff.mpr fun c hc => by simpa using List.all_eq_true.mp hb c hc

theorem inkOf_trim (t : Text) : inkOf (Text.trim t) = inkOf t := by
  obtain ⟨a, b, ht, ha, hb⟩ := Text.exists_blank_around t
  conv_rhs => rw [ht]
  rw [inkOf_append, inkOf_append, inkOf_of_allBlank ha, inkOf_of_allBlank hb, List.nil_append, List.append_nil]

theorem leavesOpen_iff {t : Text} : LeavesOpen t ↔
    ∃ a v, t = a ++ "globs:".toList ++ v ∧ (inkOf v).head? = some '[' ∧ ']' ∉ inkOf v := by
  have hfirst : ∀ v : Text, (Text.trimLeft v).head? = (inkOf v).head? := fun v => by
    rw [inkOf, List.head?_filter, List.find?_eq_head?_dropWhile_not, Text.trimLeft]
    simp only [Bool.not_not]
  have hmem : ∀ v : Text, ']' ∈ inkOf v ↔ ']' ∈ v := fun v => by
    rw [inkOf, List.mem_filter, and_iff_left (by decide)]
  simp only [LeavesOpen, hfirst, hmem]

/-- A row and what becomes of it: the ink stays, and no name of a list is new. -/
structure KeepsInk (l m : Text) : Prop where
  ink : inkOf m = inkOf l
  name : ∀ u v, m = u ++ "globs:".toList ++ v → ∃ u' v', l = u' ++ "globs:".toList ++ v' ∧ inkOf v' = inkOf v

theorem KeepsInk.refl (l : Text) : KeepsInk l l := ⟨rfl, fun u v h => ⟨u, v, h, rfl⟩⟩

theorem keepsInk_trim (l : Text) : KeepsInk l (Text.trim l) where
  ink := inkOf_trim l
  name u v h := by
    obtain ⟨a, b, hl, -, hb⟩ := Text.exists_blank_around l
    refine ⟨a ++ u, v ++ b, ?_, by rw [inkOf_append, inkOf_of_allBlank hb, List.append_nil]⟩
    conv_lhs => rw [hl, h]
    simp only [List.append_assoc]

theorem KeepsInk.trans {l m n : Text} (h : KeepsInk l m) (h' : KeepsInk m n) : KeepsInk l n where
  ink := h'.ink.trans h.ink
  name u v hn := by
    obtain ⟨u₁, v₁, hm, hv₁⟩ := h'.name u v hn
    obtain ⟨u₂, v₂, hl, hv₂⟩ := h.name u₁ v₁ hm
    exact ⟨u₂, v₂, hl, hv₂.trans hv₁⟩

theorem keepsInk_spaceColon (l : Text) : KeepsInk l (spaceColon l) := by
  obtain h | ⟨w, ws, c, r, hl, -, hc, h⟩ := spaceColon_cases l
  · rw [h]
    exact KeepsInk.refl l
  · have hspace : inkOf [' '] = [] := by decide
    have hleft : l = (w :: ws ++ [':']) ++ c :: r := by rw [hl]; simp
    have hright : spaceColon l = (w :: ws ++ [':']) ++ ' ' :: c :: r := by rw [h]; simp
    have hink : ∀ a : Text, inkOf (a ++ ' ' :: c :: r) = inkOf (a ++ c :: r) := fun a => by
      rw [← List.singleton_append, inkOf_append, inkOf_append, inkOf_append, hspace, List.nil_append]
    refine ⟨by rw [hright, hleft, hink], fun u v hm => ?_⟩
    rw [hright] at hm
    rcases Text.occurrence_append_cons (by decide) hm.symm with ⟨z, hz, rfl⟩ | ⟨z, hz, -⟩
    · exact ⟨u, z ++ c :: r, by rw [hleft, hz]; simp, (hink z).symm⟩
    · exact ⟨w :: ws ++ [':'] ++ z, v, by rw [hleft, hz]; simp, rfl⟩

theorem inkOf_join {ls ms : List Text} (h : List.Forall₂ KeepsInk ls ms) :
    inkOf (Text.join ['\n'] ms) = inkOf (Text.join ['\n'] ls) := by
  induction h with
  | nil => rfl
  | @cons l m ls ms hlm hls ih =>
    cases hls with
    | nil => exact hlm.ink
    | cons =>
      rw [Text.join_cons (t := m) _ (by simp), Text.join_cons (t := l) _ (by simp)]
      simp only [inkOf_append, hlm.ink, ih]

theorem LeavesOpen.of_join {ls ms : List Text} (h : List.Forall₂ KeepsInk ls ms)
    (ho : LeavesOpen (Text.join ['\n'] ms)) : LeavesOpen (Text.join ['\n'] ls) := by
  induction h with
  | nil => exact ho
  | @cons l m ls ms hlm hls ih =>
    obtain ⟨a, v, hm, hv⟩ := leavesOpen_iff.mp ho
    cases hls with
    | nil =>
      obtain ⟨u', v', hl, he⟩ := hlm.name a v hm
      rw [← he] at hv
      exact leavesOpen_iff.mpr ⟨u', v', hl, hv⟩
    | @cons k n ks ns hkn hks =>
      have hink := inkOf_join (List.Forall₂.cons hkn hks)
      rw [Text.join_cons_cons] at hm ⊢
      rcases Text.occurrence_append_cons (by decide) hm.symm with ⟨z, hz, rfl⟩ | ⟨z, hz, -⟩
      · obtain ⟨u', v', rfl, he⟩ := hlm.name a z hz
        refine leavesOpen_iff.mpr ⟨u', v' ++ '\n' :: Text.join ['\n'] (k :: ks), by simp, ?_⟩
        have hsame : inkOf (v' ++ '\n' :: Text.join ['\n'] (k :: ks)) =
            inkOf (z ++ '\n' :: Text.join ['\n'] (n :: ns)) := by
          rw [inkOf_append, inkOf_append, he, ← List.singleton_append, inkOf_append, ← hink, ← inkOf_append]; rfl
        rw [hsame]
        exact hv
      · exact ((ih (leavesOpen_iff.mpr ⟨z, v, hz, hv⟩)).append_left ['\n']).append_left l

theorem LeavesOpen.of_repaired {ls : List Text}
    (h : LeavesOpen (Text.join ['\n'] ((dedent [] ls).map spaceColon))) : LeavesOpen (Text.join ['\n'] ls) := by
  refine h.of_join ?_
  rw [List.forall₂_map_right_iff]
  exact (forall₂_dedent KeepsInk.refl (fun _ l _ => keepsInk_trim l) ls []).imp
    fun _ m hm => hm.trans (keepsInk_spaceColon m)

end AgentRules.Header
