import Mathlib
import AgentRules.Check
import AgentRules.Proofs.Header.Quoting
import AgentRules.Proofs.Header.Settling

/-!
# What repair leaves as it is

Repair makes three changes one after the other: stray indentation goes, a blank comes after a colon,
lists of globs are quoted. No change undoes an earlier one, so a header that comes out as it went in
was left alone by each of them. That can be a header that cannot be read, since repair looks for stray
indentation after line feeds only. Main statements: `repairBlock_eq_iff`, `repair_eq_self_iff`, and
`unchanged_iff_ok_iff` for when an unchanged document is one with a header that can be read.
-/

namespace AgentRules.Header

open Text (isBlank allBlank isQuote rows inkedRows PlainBreaks)

/-! ## One change at a time -/

/-- A word at the start of a row and a colon after it, with no blank next. -/
def IsCramped (l : Text) : Prop :=
  ∃ w c r, l = w ++ ':' :: c :: r ∧ w ≠ [] ∧ (∀ d ∈ w, Text.isWord d = true) ∧ isBlank c = false

theorem spaceColon_eq_self_iff {l : Text} : spaceColon l = l ↔ ¬ IsCramped l := by
  constructor
  · rintro h ⟨w, c, r, rfl, hne, hw, hc⟩
    obtain ⟨d, w, rfl⟩ := List.exists_cons_of_ne_nil hne
    have ht : (d :: w ++ ':' :: c :: r).takeWhile Text.isWord = d :: w := by
      rw [List.takeWhile_append_of_pos hw, List.takeWhile_cons_of_neg (by decide), List.append_nil]
    have hd : (d :: w ++ ':' :: c :: r).dropWhile Text.isWord = ':' :: c :: r := by
      rw [List.dropWhile_append_of_pos hw, List.dropWhile_cons_of_neg (by decide)]
    unfold spaceColon at h
    simp only [ht, hd, hc] at h
    have := congrArg List.length h
    simp at this
  · intro h
    obtain hl | ⟨w, ws, c, r, hl, hw, hc, -⟩ := spaceColon_cases l
    · exact hl
    · exact absurd ⟨w :: ws, c, r, hl, by simp, hw, hc⟩ h

theorem dedent_eq_self_iff {ls : List Text} : ∀ {p : Text},
    dedent p ls = ls ↔ wellIndented p (ls.filter (!allBlank ·)) = true := by
  intro p
  refine ⟨fun h => by rw [← h]; exact wellIndented_dedent ls p, fun h => ?_⟩
  induction ls generalizing p with
  | nil => rfl
  | cons l ls ih =>
    rw [dedent]
    by_cases hb : allBlank l = true
    · rw [List.filter_cons_of_neg (by simp [hb])] at h
      rw [if_pos hb, ih h]
    · rw [List.filter_cons_of_pos (by simpa using hb), wellIndented, Bool.and_eq_true, Bool.not_eq_true'] at h
      simp only [hb, h.1, Bool.false_eq_true, ite_false, ih h.2]

/-! ## Blanks after colons -/

/-- A text and what it is after spaces have been put behind some of its colons. -/
inductive Loosened : Text → Text → Prop
  | nil : Loosened [] []
  | keep (c : Char) {r u : Text} (h : Loosened r u) : Loosened (c :: r) (c :: u)
  | gap {r u : Text} (hr : ∀ c ∈ r.head?, isBlank c = false) (h : Loosened r u) : Loosened (':' :: r) (':' :: ' ' :: u)

namespace Loosened

theorem append_left {r u : Text} (h : Loosened r u) : ∀ a : Text, Loosened (a ++ r) (a ++ u)
  | [] => h
  | c :: a => keep c (append_left h a)

theorem spaceColon_append {r u : Text} (h : Loosened r u) (l : Text) : Loosened (l ++ r) (spaceColon l ++ u) := by
  obtain hl | ⟨w, ws, c, s, hl, -, hc, hs⟩ := spaceColon_cases l
  · rw [hl]
    exact h.append_left l
  · rw [hs, hl, List.append_assoc, List.append_assoc]
    exact append_left (gap (by simpa using hc) (h.append_left (c :: s))) (w :: ws)

theorem join_map_spaceColon : ∀ ls : List Text,
    Loosened (Text.join ['\n'] ls) (Text.join ['\n'] (ls.map spaceColon))
  | [] => nil
  | [l] => by simpa [Text.join] using spaceColon_append nil l
  | l :: m :: ls => by
    have ih := join_map_spaceColon (m :: ls)
    rw [List.map_cons, List.map_cons, Text.join_cons_cons, Text.join_cons_cons]
    exact spaceColon_append (keep '\n' ih) l

/-- Each space that has been put in can be counted. -/
theorem count_add_length {x s : Text} (h : Loosened x s) : s.count ' ' + x.length = x.count ' ' + s.length := by
  induction h with
  | nil => rfl
  | keep c _ ih => simp only [List.count_cons, List.length_cons]; omega
  | gap _ _ ih => simp only [List.count_cons, List.length_cons]; simp; omega

theorem length_le {x s : Text} (h : Loosened x s) : x.length ≤ s.length := by
  induction h with
  | nil => exact le_refl _
  | keep _ _ ih => simpa using ih
  | gap _ _ ih => simp only [List.length_cons]; omega

theorem eq_of_length_le {x s : Text} (h : Loosened x s) (hl : s.length ≤ x.length) : s = x := by
  induction h with
  | nil => rfl
  | keep c _ ih => rw [ih (by simpa using hl)]
  | gap _ h _ =>
    have := h.length_le
    simp only [List.length_cons] at hl
    omega

theorem eq_of_count_le {x s : Text} (h : Loosened x s) (hc : s.count ' ' ≤ x.count ' ') : s = x :=
  h.eq_of_length_le (by have := h.count_add_length; omega)

theorem eq_nil_iff {x s : Text} (h : Loosened x s) : x = [] ↔ s = [] := by
  cases h <;> simp

theorem mem {x s : Text} (h : Loosened x s) {c : Char} (hc : c ∈ x) : c ∈ s := by
  induction h with
  | nil => exact hc
  | keep d _ ih => exact (List.mem_cons.mp hc).elim (by rintro rfl; simp) fun h => List.mem_cons_of_mem d (ih h)
  | gap _ _ ih =>
    rcases List.mem_cons.mp hc with rfl | h
    · simp
    · exact List.mem_cons_of_mem _ (List.mem_cons_of_mem _ (ih h))

section
variable {c : Char} (hcolon : c ≠ ':')
include hcolon

/-- A character that is neither blank nor a colon cuts both texts in two. -/
theorem cut_right (hc : isBlank c = false) {b : Text} : ∀ {a x : Text}, Loosened x (a ++ c :: b) →
    ∃ a₀ b₀, x = a₀ ++ c :: b₀ ∧ Loosened a₀ a ∧ Loosened b₀ b
  | [], x, h => by
    cases h with
    | keep _ h => exact ⟨[], _, rfl, nil, h⟩
    | gap _ _ => exact absurd rfl hcolon
  | d :: a, x, h => by
    rw [List.cons_append] at h
    generalize hs : a ++ c :: b = s at h
    cases h with
    | keep _ h =>
      obtain ⟨a₀, b₀, rfl, ha, hb⟩ := cut_right hc (hs ▸ h)
      exact ⟨d :: a₀, b₀, rfl, keep d ha, hb⟩
    | gap hr h =>
      cases a with
      | nil =>
        rw [List.nil_append, List.cons.injEq] at hs
        rw [hs.1] at hc
        exact absurd hc (by decide)
      | cons e a =>
        rw [List.cons_append, List.cons.injEq] at hs
        obtain ⟨rfl, rfl⟩ := hs
        obtain ⟨a₀, b₀, rfl, ha, hb⟩ := cut_right hc h
        refine ⟨':' :: a₀, b₀, rfl, gap (fun f hf => ?_) ha, hb⟩
        cases a₀ with
        | nil => cases hf
        | cons g a₀ => exact hr f hf

theorem cut_left {b : Text} {a s : Text} (h : Loosened (a ++ c :: b) s) :
    ∃ a' b', s = a' ++ c :: b' ∧ Loosened a a' ∧ Loosened b b' := by
  generalize hx : a ++ c :: b = x at h
  induction h generalizing a with
  | nil => simp at hx
  | keep d h ih =>
    cases a with
    | nil =>
      rw [List.nil_append, List.cons.injEq] at hx
      obtain ⟨rfl, rfl⟩ := hx
      exact ⟨[], _, rfl, nil, h⟩
    | cons e a =>
      rw [List.cons_append, List.cons.injEq] at hx
      obtain ⟨rfl, hx⟩ := hx
      obtain ⟨a', b', rfl, ha, hb⟩ := ih hx
      exact ⟨e :: a', b', rfl, keep e ha, hb⟩
  | gap hr h ih =>
    cases a with
    | nil =>
      rw [List.nil_append, List.cons.injEq] at hx
      exact absurd hx.1 hcolon
    | cons e a =>
      rw [List.cons_append, List.cons.injEq] at hx
      obtain ⟨rfl, hx⟩ := hx
      obtain ⟨a', b', rfl, ha, hb⟩ := ih hx
      refine ⟨':' :: ' ' :: a', b', rfl, gap (fun f hf => hr f ?_) ha, hb⟩
      rw [← hx]
      cases a with
      | nil => cases hf
      | cons g a => exact hf

theorem fields (hc : isBlank c = false) {x s : Text} (h : Loosened x s) :
    List.Forall₂ Loosened (Text.fields c x) (Text.fields c s) := by
  induction hn : s.length using Nat.strong_induction_on generalizing x s with
  | _ n ih =>
    subst hn
    by_cases hm : c ∈ s
    · obtain ⟨a, b, rfl⟩ := List.append_of_mem hm
      obtain ⟨a₀, b₀, rfl, ha, hb⟩ := cut_right hcolon hc h
      rw [Text.fields_append_cons, Text.fields_append_cons]
      exact List.rel_append (ih _ (by simp) ha rfl) (ih _ (by simp; omega) hb rfl)
    · rw [Text.fields_of_not_mem hm, Text.fields_of_not_mem fun hx => hm (h.mem hx)]
      exact List.Forall₂.cons h List.Forall₂.nil

end

end Loosened

/-! ## Quoted lists -/

theorem count_dropWhile_isQuote (t : Text) : (t.dropWhile isQuote).count ' ' = t.count ' ' := by
  induction t with
  | nil => rfl
  | cons c t ih =>
    by_cases hc : isQuote c = true
    · have hne : c ≠ ' ' := fun e => by rw [e] at hc; exact absurd hc (by decide)
      rw [List.dropWhile_cons_of_pos hc, ih, List.count_cons_of_ne hne]
    · rw [List.dropWhile_cons_of_neg hc]

theorem count_itemOfField (t : Text) : (itemOfField t).count ' ' = (Text.trim t).count ' ' := by
  rw [itemOfField, bare, List.count_reverse, count_dropWhile_isQuote, List.count_reverse, count_dropWhile_isQuote]

/-- A field that is quoted already has no space too many. -/
theorem Loosened.eq_quoted {p f : Text} (hp : p = [] ∨ p = [' ']) (h : Loosened (p ++ quoted (itemOfField f)) f) :
    f = p ++ quoted (itemOfField f) := by
  have hmark : isBlank '"' = false := by decide
  obtain ⟨p', b, hf, hp', hb⟩ := h.cut_left (b := itemOfField f ++ ['"']) (c := '"') (by decide)
  obtain ⟨z, e, rfl, hz, he⟩ := hb.cut_left (c := '"') (by decide)
  have hpp : p' = p := by
    rcases hp with rfl | rfl
    · exact hp'.eq_nil_iff.mp rfl
    · cases hp' with
      | keep _ hn => rw [hn.eq_nil_iff.mp rfl]
  rw [hpp, he.eq_nil_iff.mp rfl] at hf
  have htrim : Text.trim f = '"' :: z ++ ['"'] := by
    have hz' := Text.trim_between hmark hmark z
    rcases hp with rfl | rfl
    · rw [hf]; exact hz'
    · rw [hf, List.singleton_append, Text.trim_cons_blank (by decide)]; exact hz'
  have hcount := count_itemOfField f
  rw [htrim] at hcount
  have hzi : z = itemOfField f := hz.eq_of_count_le (by rw [hcount]; simp)
  conv_lhs => rw [hf, hzi]
  rfl

theorem Loosened.eq_spacedOut {fs : List Text}
    (h : List.Forall₂ Loosened (spacedOut (fs.map fun f => quoted (itemOfField f))) fs) :
    fs = spacedOut (fs.map fun f => quoted (itemOfField f)) := by
  cases fs with
  | nil => rfl
  | cons f fs =>
    rw [List.map_cons, spacedOut, List.forall₂_cons] at h
    have hrest : fs = (fs.map fun f => quoted (itemOfField f)).map (' ' :: ·) := by
      obtain ⟨-, h⟩ := h
      induction fs with
      | nil => rfl
      | cons g gs ih =>
        rw [List.map_cons, List.map_cons, List.forall₂_cons] at h
        rw [List.map_cons, List.map_cons, ← ih h.2]
        exact congrArg (· :: gs) (Loosened.eq_quoted (p := [' ']) (Or.inr rfl) h.1)
    rw [List.map_cons, spacedOut, ← hrest]
    exact congrArg (· :: fs) (Loosened.eq_quoted (p := []) (Or.inl rfl) h.1)

/-- A list that is written as its own items are quoted has no space too many. -/
theorem Loosened.eq_list {inside : Text}
    (h : Loosened (Text.join [',', ' '] ((globItems inside).map quoted)) inside) :
    inside = Text.join [',', ' '] ((globItems inside).map quoted) := by
  by_cases hI : globItems inside = []
  · rw [hI] at h ⊢
    exact h.eq_nil_iff.mp rfl
  · have hfields := h.fields (c := ',') (by decide) (by decide)
    rw [fields_join_globItems hI] at hfields
    -- There are as many items as fields, so none has been dropped.
    have hall : globItems inside = (Text.fields ',' inside).map itemOfField := by
      rw [globItems_eq]
      refine List.filter_sublist.eq_of_length ?_
      rw [← globItems_eq, List.length_map, ← hfields.length_eq]
      cases globItems inside <;> simp [spacedOut]
    have hsame : Text.fields ',' inside = spacedOut ((globItems inside).map quoted) := by
      rw [hall, List.map_map] at hfields ⊢
      exact Loosened.eq_spacedOut hfields
    rw [← fields_join_globItems hI] at hsame
    have hjoin := Text.join_fields ',' inside
    rw [hsame, Text.join_fields] at hjoin
    exact hjoin.symm

/-! ## All changes -/

theorem Loosened.eq_space {gap : Text} (h : Loosened "globs: ".toList ("globs:".toList ++ gap)) : gap = [' '] := by
  change Loosened ['g', 'l', 'o', 'b', 's', ':', ' '] ('g' :: 'l' :: 'o' :: 'b' :: 's' :: ':' :: gap) at h
  cases h with | keep _ h => cases h with | keep _ h => cases h with | keep _ h => cases h with | keep _ h =>
  cases h with | keep _ h => cases h with
  | keep _ h => cases h with
    | keep _ h => rw [h.eq_nil_iff.mp rfl]
  | gap hr _ => exact absurd (hr ' ' rfl) (by decide)

/-- What is quoted and is then as it was before the spaces were put in has had none put in. -/
theorem Loosened.eq_of_quoteGlobs {e : Text} (he : ∀ c ∈ e.head?, c ≠ ' ') (s : Text) :
    (s.head? = some ' ' → (quoteGlobs 0 s).head? = some ' ') ∧
      ∀ x, Loosened x s → quoteGlobs 0 s = x ++ e → s = x ∧ e = [] := by
  refine quoteGlobs_induction (P := fun s u => (s.head? = some ' ' → u.head? = some ' ') ∧
    ∀ x, Loosened x s → u = x ++ e → s = x ∧ e = []) ?_ ?_ ?_ s
  · refine ⟨id, fun x h hx => ?_⟩
    exact (List.append_eq_nil_iff.mp hx.symm).imp_left Eq.symm
  · intro gap inside rest u hgap hin ih
    refine ⟨fun h => absurd h (by simp), fun x h hx => ?_⟩
    rw [list_eq] at h ⊢
    rw [quotedList_eq] at hx
    obtain ⟨a, y, rfl, ha, hy⟩ := h.cut_right (by decide) (by decide)
    obtain ⟨i, r, rfl, hi, hr⟩ := hy.cut_right (by decide) (by decide)
    -- Both sides have their brackets where the list has them.
    have hbracket : '[' ∉ "globs:".toList ++ gap := by
      rw [List.mem_append, not_or]
      exact ⟨by decide, Text.not_mem_of_allBlank hgap (by decide)⟩
    have hopen : "globs: ".toList ++ '[' :: (Text.join [',', ' '] ((globItems inside).map quoted) ++ ']' :: u) =
        a ++ '[' :: (i ++ ']' :: (r ++ e)) := by
      rw [hx]; simp
    obtain ⟨rfl, hclose⟩ := Text.eq_of_first (by decide) (fun hm => hbracket (ha.mem hm)) hopen
    obtain ⟨rfl, hu⟩ := Text.eq_of_first (bracket_not_mem_list hin) (fun hm => hin (hi.mem hm)) hclose
    obtain ⟨hrest, he⟩ := ih.2 r hr hu
    rw [ha.eq_space, hrest, ← hi.eq_list]
    exact ⟨rfl, he⟩
  · intro c r u ih
    refine ⟨id, fun x h hx => ?_⟩
    cases h with
    | keep _ h =>
      rw [List.cons_append, List.cons.injEq] at hx
      obtain ⟨rfl, he⟩ := ih.2 _ h hx.2
      exact ⟨rfl, he⟩
    | @gap x _ hnext h =>
      -- A space that has been put in stays, and there was none.
      have hhead := ih.1 rfl
      rw [List.cons_append, List.cons.injEq] at hx
      rw [hx.2] at hhead
      cases x with
      | nil => exact absurd rfl (he ' ' hhead)
      | cons d x =>
        rw [Option.some.inj hhead] at hnext
        exact absurd (hnext ' ' rfl) (by decide)

theorem inPlace_of_append (s : Spot) (k : Bool) {a b : Text} (h : inPlace s k (a ++ b) = true) :
    inPlace s k a = true := by
  induction a generalizing s k with
  | nil => rfl
  | cons c a ih =>
    rw [List.cons_append] at h
    by_cases hn : c = '\n'
    · rw [hn, inPlace_newline] at h ⊢
      exact ih _ _ h
    · by_cases hc : isBlank c = true
      · rw [inPlace_blank _ _ hn hc] at h ⊢
        exact ih _ _ h
      · have hc : isBlank c = false := by simpa using hc
        rw [inPlace_ink _ _ hc, Bool.and_eq_true] at h ⊢
        exact ⟨h.1, ih _ _ h.2⟩

/-- A block that none of the changes is for: no row of it is misplaced after the one before, none is
cramped, and its lists of globs are written as they would be quoted. -/
structure IsNeat (block : Text) : Prop where
  indented : wellIndented [] (inkedRows block) = true
  spaced : ∀ l ∈ rows block, ¬ IsCramped l
  quoted : quoteAllGlobs block = block

theorem repairBlock_of_isNeat {block : Text} (h : IsNeat block) : repairBlock block = block := by
  have hspaced : (rows block).map spaceColon = rows block := by
    conv_rhs => rw [← List.map_id (rows block)]
    exact List.map_congr_left fun l hl => spaceColon_eq_self_iff.mpr (h.spaced l hl)
  have hjoin : Text.join ['\n'] (rows block) = block := Text.join_fields '\n' block
  rw [repairBlock, dedent_eq_self_iff.mpr h.indented, hspaced, hjoin]
  exact h.quoted

/-- **No change undoes another.** A block that comes out as it went in, or with a carriage return
after it, was neat. -/
theorem isNeat_of_repairBlock {block e : Text} (he : ∀ c ∈ e.head?, c ≠ ' ') (h : repairBlock block = block ++ e) :
    IsNeat block ∧ e = [] := by
  -- What comes out is in place, so nothing has been dedented.
  have hplace : wellIndented [] (inkedRows block) = true := by
    rw [← inPlace_eq_wellIndented]
    have hout := inPlace_repairBlock block
    rw [h] at hout
    exact inPlace_of_append _ _ hout
  have hjoin : Text.join ['\n'] (rows block) = block := Text.join_fields '\n' block
  have hloose : Loosened block (evened block) := by
    have hrows := Loosened.join_map_spaceColon (rows block)
    rwa [hjoin, ← dedent_eq_self_iff.mpr hplace, ← evened] at hrows
  rw [repairBlock_eq] at h
  obtain ⟨hsame, hnil⟩ := (Loosened.eq_of_quoteGlobs he (evened block)).2 block hloose h
  rw [hsame, hnil, List.append_nil] at h
  refine ⟨⟨hplace, fun l hl => spaceColon_eq_self_iff.mp ?_, by rw [quoteAllGlobs_eq, h]⟩, hnil⟩
  have hmap : (rows block).map spaceColon = rows block := by
    have hr := rows_join_repaired block
    rw [show Text.join ['\n'] ((dedent [] (rows block)).map spaceColon) = block from hsame,
      dedent_eq_self_iff.mpr hplace] at hr
    exact hr.symm
  exact List.map_inj_left.mp (hmap.trans (List.map_id _).symm) l hl

theorem repairBlock_eq_iff {block : Text} : repairBlock block = block ↔ IsNeat block := by
  refine ⟨fun h => (isNeat_of_repairBlock (e := []) (by simp) ?_).1, repairBlock_of_isNeat⟩
  rw [h, List.append_nil]

/-! ## Documents -/

/-- A document in which repair sees nothing to do, though its header cannot be read: line feeds end its
lines, its rows are in place, and its lines are not. -/
def Overlooked (t : Text) : Prop :=
  ∃ block rest, cut? t = some (block, rest) ∧ t = dashes ++ '\n' :: (block ++ closing ++ rest) ∧
    wellIndented [] (blockLines block) = false ∧ IsNeat block

theorem ofBlock_eq_malformed_iff {block : Text} : ofBlock block = malformed ↔ wellIndented [] (blockLines block) = false := by
  rw [ofBlock]
  cases wellIndented [] (blockLines block) <;> simp

theorem Overlooked.malformed {t : Text} (h : Overlooked t) : ofText t = malformed := by
  obtain ⟨block, rest, hc, -, hw, -⟩ := h
  rw [ofText, hc]
  exact ofBlock_eq_malformed_iff.mpr hw

theorem repair_eq_self_iff {t : Text} : repair t = t ↔ (ofText t).isOk = true ∨ Overlooked t := by
  cases h : ofText t with
  | absent =>
    have hno : ¬ Overlooked t := fun ho => by rw [ho.malformed] at h; cases h
    have hne : minimal ++ t ≠ t := fun e => by
      have hnil : minimal = [] := List.append_left_eq_self.mp e
      exact absurd hnil (by decide)
    simp [repair_of_absent h, isOk, hno, hne]
  | malformed =>
    obtain ⟨block, rest, hc⟩ := cut?_of_malformed h
    rw [repair_of_malformed h hc]
    simp only [isOk, Bool.false_eq_true, false_or]
    constructor
    · intro ht
      obtain ⟨e, b, he, hb, -, rfl⟩ := cut?_eq_some_iff.mp hc
      have hsame : repairBlock (withoutReturn b) = b := by
        have hpre := ht.trans hb
        simp only [List.append_assoc] at hpre
        rcases he with rfl | rfl
        · exact List.append_cancel_right (List.cons.inj (List.append_cancel_left hpre)).2
        · exact absurd (List.cons.inj (List.append_cancel_left hpre)).1 (by decide)
      have hneat : IsNeat (withoutReturn b) ∧ b = withoutReturn b := by
        rcases withoutReturn_cases b with hr | hr
        · refine ⟨repairBlock_eq_iff.mp ?_, hr.symm⟩
          rw [hsame, hr]
        · obtain ⟨-, hnil⟩ := isNeat_of_repairBlock (e := ['\r']) (by simp) (hsame.trans hr)
          cases hnil
      refine ⟨withoutReturn b, rest, hc, ?_, ?_, hneat.1⟩
      · rw [← hneat.2]
        rw [hsame] at ht
        exact ht.symm
      · rw [ofText, hc] at h
        exact ofBlock_eq_malformed_iff.mp h
    · rintro ⟨block', rest', hc', ht, -, hneat⟩
      rw [hc, Option.some.injEq, Prod.mk.injEq] at hc'
      obtain ⟨rfl, rfl⟩ := hc'
      rw [repairBlock_of_isNeat hneat]
      exact ht.symm
  | fields fs => simp [repair_of_fields h, isOk]

/-- With plain line breaks the lines are the rows, and nothing is overlooked. -/
theorem Overlooked.not_plainBreaks {t block rest : Text} (h : Overlooked t) (hc : cut? t = some (block, rest)) :
    ¬ PlainBreaks block := by
  intro hp
  obtain ⟨block', rest', hc', -, hw, hneat⟩ := h
  rw [hc, Option.some.injEq, Prod.mk.injEq] at hc'
  obtain ⟨rfl, rfl⟩ := hc'
  obtain ⟨fs, hfs⟩ := exists_fields_of_inPlace hp ((inPlace_eq_wellIndented block).trans hneat.indented)
  rw [ofBlock_eq_malformed_iff.mpr hw] at hfs
  cases hfs

/-- The header is refused: it is missing, or its indentation is not understood. -/
def IsRefused (r : Rule) : Prop :=
  Check.missingHeader ∈ Check.headerIssues r ∨ Check.invalidHeader "Invalid YAML indentation" ∈ Check.headerIssues r

theorem isRefused_iff (i : String) (t : Text) : IsRefused ⟨i, .modern, t⟩ ↔ (ofText t).isOk = false := by
  have hother : ∀ x, x = Check.missingAlways ∨ x = Check.missingDescription ∨ x = Check.badGlobs →
      x ≠ Check.missingHeader ∧ x ≠ Check.invalidHeader "Invalid YAML indentation" := by
    rintro x (rfl | rfl | rfl) <;> decide
  have hheader : (Rule.mk i .modern t).header = ofText t := rfl
  rw [IsRefused, Check.headerIssues, hheader]
  cases ofText t with
  | absent => simp [isOk]
  | malformed => simp [isOk]
  | fields fs =>
    simp only [isOk, Bool.true_eq_false, iff_false, not_or]
    have hmem : ∀ x ∈ (if fs.get? "alwaysApply".toList = some (.flag true) then [] else [Check.missingAlways]) ++
        (if Check.isFilled (fs.get? "description".toList) then [] else [Check.missingDescription]) ++
        (if Check.isCommaList (fs.get? "globs".toList) then [Check.badGlobs] else []),
        x = Check.missingAlways ∨ x = Check.missingDescription ∨ x = Check.badGlobs := by
      intro x hx
      simp only [List.mem_append, List.mem_ite_nil_left, List.mem_ite_nil_right, List.mem_singleton] at hx
      tauto
    exact ⟨fun hx => (hother _ (hmem _ hx)).1 rfl, fun hx => (hother _ (hmem _ hx)).2 rfl⟩

/-- **Unchanged documents.** That a document is left as it is if its header can be read, and only then,
holds of every document but the overlooked ones. They are the ones that are left as they are although
their header is refused, and each has a line boundary that is no line feed in its block. -/
theorem unchanged_iff_ok_iff (i : String) (t : Text) :
    ((repair t = t ↔ (ofText t).isOk = true) ↔ ¬ Overlooked t) ∧
      (repair t = t ∧ IsRefused ⟨i, .modern, t⟩ ↔ Overlooked t) ∧
      (Overlooked t → ∀ block rest, cut? t = some (block, rest) → ¬ PlainBreaks block) := by
  have hno : Overlooked t → (ofText t).isOk = false := fun h => by rw [h.malformed]; rfl
  rw [repair_eq_self_iff, isRefused_iff]
  refine ⟨⟨fun h ho => ?_, fun h => or_iff_left h⟩, ⟨fun ⟨h, hr⟩ => ?_, fun h => ⟨Or.inr h, hno h⟩⟩,
    fun h block rest hc => h.not_plainBreaks hc⟩
  · have hok := h.mp (Or.inr ho)
    rw [hno ho] at hok
    cases hok
  · rw [hr] at h
    exact h.resolve_left Bool.false_ne_true

/-- A line separator in a description, with a space after it. -/
theorem line_separator_is_overlooked :
    repair "---\ndescription: a\u2028 b\nalwaysApply: true\n---\n".toList =
        "---\ndescription: a\u2028 b\nalwaysApply: true\n---\n".toList ∧
      (ofText "---\ndescription: a\u2028 b\nalwaysApply: true\n---\n".toList).isOk = false := by
  decide

end AgentRules.Header
