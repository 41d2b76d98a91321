import AgentRules.Proofs.Header.Extent
import AgentRules.Proofs.Header.Requoting

/-!
# Two kinds of lists

Patterns can be given one a line after a dash, or all in brackets on the line of their key. The lines
become items when they are read, the brackets stay text until patterns are asked for, and marks come off
in different ways; the patterns are the same. Main statement: `lists_give_same_globs`.
-/

namespace AgentRules

open Text (allBlank isQuote)

/-! ## Patterns as they are written -/

theorem Text.not_blank_of_isQuote {m : Char} (h : isQuote m = true) : isBlank m = false := by
  rcases (by simpa [isQuote] using h : m = '"' ∨ m = '\'') with rfl | rfl <;> decide

namespace Glob

theorem stripQuotes_of_noQuotesAround {p : Text} (h : Header.NoQuotesAround p) : stripQuotes p = p := by
  cases p with
  | nil => rfl
  | cons c r =>
    have hc : isQuote c = false := h.1 c rfl
    rw [stripQuotes_cons, hc, if_neg Bool.false_ne_true, withoutLastQuote]
    split
    · next d hd =>
      have hd : isQuote d = false := h.2 d hd
      rw [hd, if_neg Bool.false_ne_true]
    · rfl

theorem clean_of_forall₂ {us ps : List Text} (h : List.Forall₂ (fun p u => p = stripQuotes (Text.trim u)) ps us)
    (hp : ∀ p ∈ ps, p ≠ []) : clean us = ps := by
  have hmap : ps = us.map fun u => stripQuotes (Text.trim u) := by
    rwa [← List.forall₂_eq_eq_eq, List.forall₂_map_right_iff]
  rw [clean, ← hmap, List.filter_eq_self]
  intro p hps
  simpa using hp p hps

end Glob

namespace Header

/-- A pattern that lists of both kinds can give. -/
structure IsListable (p : Text) : Prop where
  nonempty : p ≠ []
  trimmed : Text.trim p = p
  noComma : ',' ∉ p
  noQuotes : NoQuotesAround p

/-- A pattern as it stands, or between two equal marks. -/
def Spells (marks : List Char) (p w : Text) : Prop := w = p ∨ ∃ m ∈ marks, w = m :: p ++ [m]

/-- A line with a dash, a space and a pattern, and blanks before and after them. -/
def IsItemFor (p l : Text) : Prop :=
  ∃ i g w z, l = i ++ '-' :: ' ' :: (g ++ w ++ z) ∧ allBlank i = true ∧ allBlank g = true ∧ allBlank z = true ∧
    Spells ['"'] p w

/-- A pattern with blanks before and after it. -/
def IsPieceFor (p u : Text) : Prop :=
  ∃ g w z, u = g ++ w ++ z ∧ allBlank g = true ∧ allBlank z = true ∧ Spells ['"', '\''] p w

section
variable {marks : List Char} {p w : Text} (h : Spells marks p w) (hm : ∀ m ∈ marks, isQuote m = true)
  (hp : IsListable p)
include h hm hp

theorem Spells.trim_eq : Text.trim w = w := by
  rcases h with rfl | ⟨m, hmem, rfl⟩
  · exact hp.trimmed
  · have hb := Text.not_blank_of_isQuote (hm m hmem)
    exact Text.trim_between hb hb p

theorem Spells.stripQuotes_eq : Glob.stripQuotes w = p := by
  rcases h with rfl | ⟨m, hmem, rfl⟩
  · exact Glob.stripQuotes_of_noQuotesAround hp.noQuotes
  · exact Glob.stripQuotes_between (hm m hmem) p

omit hm in
theorem Spells.ne_nil : w ≠ [] := by
  rcases h with rfl | ⟨m, -, rfl⟩
  · exact hp.nonempty
  · simp

theorem Spells.comma_not_mem : ',' ∉ w := by
  rcases h with rfl | ⟨m, hmem, rfl⟩
  · exact hp.noComma
  · have hne : ',' ≠ m := fun e => absurd (hm m hmem) (by rw [← e]; decide)
    simp [hne, hp.noComma]

end

theorem Spells.unquote_eq {p w : Text} (h : Spells ['"'] p w) (hp : IsListable p) : Text.unquote w = p := by
  rcases h with rfl | ⟨m, hmem, rfl⟩
  · unfold Text.unquote
    split
    · exact absurd (hp.noQuotes.1 '"' rfl) (by decide)
    · rfl
  · rw [List.mem_singleton.mp hmem]
    exact unquote_quoted p

/-! ## Lines of items -/

theorem IsItemFor.trim_eq {p l : Text} (h : IsItemFor p l) (hp : IsListable p) :
    ∃ g w, Text.trim l = '-' :: ' ' :: (g ++ w) ∧ allBlank g = true ∧ Spells ['"'] p w := by
  obtain ⟨i, g, w, z, rfl, hi, hg, hz, hw⟩ := h
  have hmark : ∀ m ∈ ['"'], isQuote m = true := by simp [isQuote]
  have hlast : Text.trimRight (' ' :: (g ++ w)) = ' ' :: (g ++ w) := by
    refine Text.trimRight_eq_self_iff.mpr fun c hc => ?_
    rw [← List.cons_append, List.getLast?_append_of_ne_nil _ (hw.ne_nil hp)] at hc
    exact (Text.trim_eq_self_iff.mp (hw.trim_eq hmark hp)).2 c hc
  refine ⟨g, w, ?_, hg, hw⟩
  rw [Text.trim_append_cons (by decide), Text.trimLeft_of_allBlank hi, ← List.cons_append,
    Text.trimRight_append_blank _ hz, hlast, List.nil_append]

theorem IsItemFor.isItemLine {p l : Text} (h : IsItemFor p l) (hp : IsListable p) : isItemLine l = true := by
  obtain ⟨g, w, ht, -, -⟩ := h.trim_eq hp
  exact isItemLine_iff.mpr (.inr ⟨g ++ w, by rw [ht]; rfl⟩)

theorem IsItemFor.itemOf_eq {p l : Text} (h : IsItemFor p l) (hp : IsListable p) : itemOf l = p := by
  obtain ⟨g, w, ht, hg, hw⟩ := h.trim_eq hp
  rw [itemOf, ht, List.drop_succ_cons, List.drop_zero, Text.trim_cons_blank (by decide), Text.trim_blank_append hg,
    hw.trim_eq (by simp [isQuote]) hp, hw.unquote_eq hp]

section
variable {items ps : List Text} (h : List.Forall₂ IsItemFor ps items) (hp : ∀ p ∈ ps, IsListable p)
include h hp

theorem isItemLine_of_forall₂ : ∀ l ∈ items, isItemLine l = true := by
  intro l hl
  obtain ⟨p, hps, hpl⟩ := exists_of_mem_right h hl
  exact hpl.isItemLine (hp p hps)

theorem map_itemOf_of_forall₂ : items.map itemOf = ps := by
  rw [eq_comm, ← List.forall₂_eq_eq_eq, List.forall₂_map_right_iff]
  exact ((List.forall₂_and_left _ _).mpr ⟨hp, h⟩).imp fun p l hpl => (hpl.2.itemOf_eq hpl.1).symm

end

/-! ## Pieces between commas -/

theorem isQuote_of_mem_marks : ∀ m ∈ ['"', '\''], isQuote m = true := by
  simp [isQuote]

theorem IsPieceFor.comma_not_mem {p u : Text} (h : IsPieceFor p u) (hp : IsListable p) : ',' ∉ u := by
  obtain ⟨g, w, z, rfl, hg, hz, hw⟩ := h
  simp [Text.not_mem_of_allBlank hg (c := ',') (by decide), Text.not_mem_of_allBlank hz (c := ',') (by decide),
    hw.comma_not_mem isQuote_of_mem_marks hp]

theorem IsPieceFor.stripQuotes_eq {p u : Text} (h : IsPieceFor p u) (hp : IsListable p) :
    Glob.stripQuotes (Text.trim u) = p := by
  obtain ⟨g, w, z, rfl, hg, hz, hw⟩ := h
  rw [Text.trim_append_blank _ hz, Text.trim_blank_append hg, hw.trim_eq isQuote_of_mem_marks hp,
    hw.stripQuotes_eq isQuote_of_mem_marks hp]

/-! ## Lines in place -/

theorem isMisplaced_of_isItemLine {l : Text} (h : isItemLine l = true) (q : Text) : isMisplaced q l = false := by
  have hhead : (Text.trim l).head? = some '-' := by
    rcases isItemLine_iff.mp h with h | ⟨r, h⟩
    · rw [h]; rfl
    · rw [← h]; rfl
  simp [isMisplaced, hhead]

theorem wellIndented_append (as bs : List Text) : ∀ q : Text,
    wellIndented q (as ++ bs) = (wellIndented q as && wellIndented (as.getLast?.getD q) bs) := by
  induction as with
  | nil => intro q; rfl
  | cons a as ih =>
    intro q
    rw [List.cons_append, wellIndented, wellIndented, ih, List.getLast?_cons, Bool.and_assoc]
    rfl

theorem wellIndented_of_isItemLine {items : List Text} (h : ∀ l ∈ items, isItemLine l = true) : ∀ q : Text,
    wellIndented q items = true := by
  induction items with
  | nil => intro q; rfl
  | cons l items ih =>
    intro q
    rw [List.forall_mem_cons] at h
    rw [wellIndented, isMisplaced_of_isItemLine h.1, ih h.2]
    rfl

theorem keysOf_append_of_isItemLine {items : List Text} (h : ∀ l ∈ items, isItemLine l = true) (after : List Text) :
    keysOf (items ++ after) = keysOf after := by
  have hnone : items.filter isFieldLine = [] := by
    rw [List.filter_eq_nil_iff]
    intro l hl
    simp [isFieldLine, h l hl]
  rw [keysOf, List.filter_append, hnone]
  rfl

/-! ## The field -/

/-- A line with the key of globs, the items after it, and the lines around them: no later line has the key,
and the other lines are in place. -/
structure HoldsGlobs (before : List Text) (l : Text) (items after : List Text) : Prop where
  key : HasGlobs l
  unindented : isIndented l = false
  last : "globs".toList ∉ keysOf after
  before_inPlace : wellIndented [] before = true
  after_inPlace : wellIndented (items.getLast?.getD l) after = true

/-- One pattern a line. -/
structure GivesItems (before : List Text) (l : Text) (items after ps : List Text) : Prop extends
    HoldsGlobs before l items after where
  written : writtenOf l = []
  patterns : List.Forall₂ IsItemFor ps items
  ends : ∀ m ∈ after.head?, isItemLine m = false

/-- All patterns in brackets. -/
structure GivesFlow (before : List Text) (l : Text) (after pieces ps : List Text) : Prop extends
    HoldsGlobs before l [] after where
  written : writtenOf l = '[' :: Text.join [','] pieces ++ [']']
  patterns : List.Forall₂ IsPieceFor ps pieces

theorem HoldsGlobs.globs_eq {before items after : List Text} {l : Text} (h : HoldsGlobs before l items after)
    (hi : ∀ m ∈ items, isItemLine m = true) {t block rest : Text} (ht : ReadsShortest t block rest)
    (hb : blockLines block = before ++ l :: (items ++ after)) :
    (ofText t).isOk = true ∧ (ofText t).scope.globs = Glob.ofValue (some (valueOf l (items ++ after))) := by
  have hplace : wellIndented [] (blockLines block) = true := by
    -- Lines of items are in place after any line, so only the other lines have to be.
    have hl : ∀ q, isMisplaced q l = false := fun q => by simp [isMisplaced, h.unindented]
    rw [hb, wellIndented_append, h.before_inPlace, wellIndented, hl, wellIndented_append,
      wellIndented_of_isItemLine hi, h.after_inPlace]
    rfl
  have hread : ofText t = .fields (gather [] ((before ++ l :: (items ++ after)).map Line.ofText)) := by
    rw [ofText, cut?_eq_some_iff_readsShortest.mpr ht]
    exact (if_pos hplace).trans (by rw [hb])
  obtain ⟨hfield, hkey⟩ := hasGlobs_iff.mp h.key
  have hlast : keyOf l ∉ keysOf (items ++ after) := by
    rw [keysOf_append_of_isItemLine hi, hkey]
    exact h.last
  have hget : Fields.get? (keyOf l) (gather [] ((before ++ l :: (items ++ after)).map Line.ofText)) =
      some (valueOf l (items ++ after)) := get?_gather hfield hlast []
  rw [hkey] at hget
  rw [hread]
  exact ⟨rfl, congrArg Glob.ofValue hget⟩

section
variable {ps : List Text} (hp : ∀ p ∈ ps, IsListable p)
include hp

theorem ofValue_items {l : Text} (hl : writtenOf l = []) {items after : List Text}
    (h : List.Forall₂ IsItemFor ps items) (ha : ∀ m ∈ after.head?, isItemLine m = false) :
    Glob.ofValue (some (valueOf l (items ++ after))) = ps := by
  have hfront : (items ++ after).takeWhile isItemLine = items := by
    rw [List.takeWhile_append_of_pos (isItemLine_of_forall₂ h hp), List.append_right_eq_self]
    cases after with
    | nil => rfl
    | cons m after => simp [ha m rfl]
  rw [valueOf, hl, hfront, map_itemOf_of_forall₂ h hp]
  by_cases hi : items = []
  · -- The value is an empty text then, which has no patterns either.
    have hps : ps = [] := by simpa [hi] using h
    simp [hi, hps, Glob.ofValue]
  · simp only [ne_eq, not_true_eq_false, ite_false, hi, not_false_eq_true, ite_true]
    refine Glob.clean_of_forall₂ (List.forall₂_same.mpr fun p hps => ?_) fun p hps => (hp p hps).nonempty
    rw [(hp p hps).trimmed, Glob.stripQuotes_of_noQuotesAround (hp p hps).noQuotes]

theorem ofValue_pieces {l : Text} {pieces : List Text} (hl : writtenOf l = '[' :: Text.join [','] pieces ++ [']'])
    (h : List.Forall₂ IsPieceFor ps pieces) (after : List Text) :
    Glob.ofValue (some (valueOf l after)) = ps := by
  have hvalue : valueOf l after = .text ('[' :: Text.join [','] pieces ++ [']']) := by
    rw [valueOf, hl, if_pos (by simp)]
    rfl
  rw [hvalue, ofValue_brackets]
  by_cases hne : pieces = []
  · have hps : ps = [] := by simpa [hne] using h
    rw [hne, hps]
    rfl
  · have hcomma : ∀ u ∈ pieces, ',' ∉ u := by
      intro u hu
      obtain ⟨p, hps, hpu⟩ := exists_of_mem_right h hu
      exact hpu.comma_not_mem (hp p hps)
    rw [Text.fields_join hne hcomma]
    refine Glob.clean_of_forall₂ ?_ fun p hps => (hp p hps).nonempty
    exact ((List.forall₂_and_left _ _).mpr ⟨hp, h⟩).imp fun p u hpu => (hpu.2.stripQuotes_eq hpu.1).symm

end

/-- **Two kinds of lists.** Patterns that can be listed are the globs of every header that gives them one a
line, and of every header that gives them in brackets. Both headers can be read, whatever their other lines
say. -/
theorem lists_give_same_globs {ps : List Text} (hp : ∀ p ∈ ps, IsListable p) {t block rest : Text}
    {before items after : List Text} {l : Text} (ht : ReadsShortest t block rest)
    (hb : blockLines block = before ++ l :: (items ++ after)) (hi : GivesItems before l items after ps)
    {t' block' rest' : Text} {before' pieces after' : List Text} {l' : Text} (ht' : ReadsShortest t' block' rest')
    (hb' : blockLines block' = before' ++ l' :: after') (hf : GivesFlow before' l' after' pieces ps) :
    (ofText t).isOk = true ∧ (ofText t').isOk = true ∧ (ofText t).scope.globs = ps ∧ (ofText t').scope.globs = ps := by
  obtain ⟨hok, hglobs⟩ := hi.globs_eq (isItemLine_of_forall₂ hi.patterns hp) ht hb
  obtain ⟨hok', hglobs'⟩ := hf.globs_eq (by simp) ht' hb'
  refine ⟨hok, hok', ?_, ?_⟩
  · rw [hglobs, ofValue_items hp hi.written hi.patterns hi.ends]
  · rw [hglobs', ofValue_pieces hp hf.written hf.patterns]

/-- Brackets, a colon and a dash inside patterns, marks of each kind, and other fields around the lists. -/
theorem marked_lists_give_same_globs :
    (ofText "---\ntitle: x\nglobs:\n- src/[a-z].ts\n  - \"a: b\"\n\t- - c\nfinal: true\n---\n".toList).isOk = true ∧
      (ofText "---\nglobs: [src/[a-z].ts, 'a: b', \"- c\"]\n- d\n---\n".toList).isOk = true ∧
      (ofText "---\ntitle: x\nglobs:\n- src/[a-z].ts\n  - \"a: b\"\n\t- - c\nfinal: true\n---\n".toList).scope.globs =
        ["src/[a-z].ts".toList, "a: b".toList, "- c".toList] ∧
      (ofText "---\nglobs: [src/[a-z].ts, 'a: b', \"- c\"]\n- d\n---\n".toList).scope.globs =
        ["src/[a-z].ts".toList, "a: b".toList, "- c".toList] := by
  have hp : ∀ p ∈ ["src/[a-z].ts".toList, "a: b".toList, "- c".toList], IsListable p := by
    intro p hp
    simp only [List.mem_cons, List.not_mem_nil, or_false] at hp
    rcases hp with rfl | rfl | rfl <;>
      exact ⟨by decide, by decide, by decide, by simp [isQuote], by simp [isQuote]⟩
  have ht : ReadsShortest "---\ntitle: x\nglobs:\n- src/[a-z].ts\n  - \"a: b\"\n\t- - c\nfinal: true\n---\n".toList
      "title: x\nglobs:\n- src/[a-z].ts\n  - \"a: b\"\n\t- - c\nfinal: true".toList ['\n'] :=
    cut?_eq_some_iff_readsShortest.mp (by decide)
  have hi : GivesItems ["title: x".toList] "globs:".toList
      ["- src/[a-z].ts".toList, "  - \"a: b\"".toList, "\t- - c".toList] ["final: true".toList]
      ["src/[a-z].ts".toList, "a: b".toList, "- c".toList] :=
    ⟨⟨hasGlobs_iff.mpr ⟨by decide, by decide⟩, by decide, by decide, by decide, by decide⟩, by decide,
      .cons ⟨[], [], _, [], rfl, by decide, by decide, by decide, .inl rfl⟩
        (.cons ⟨[' ', ' '], [], _, [], rfl, by decide, by decide, by decide, .inr ⟨'"', by simp, rfl⟩⟩
          (.cons ⟨['\t'], [], _, [], rfl, by decide, by decide, by decide, .inl rfl⟩ .nil)), by decide⟩
  have ht' : ReadsShortest "---\nglobs: [src/[a-z].ts, 'a: b', \"- c\"]\n- d\n---\n".toList
      "globs: [src/[a-z].ts, 'a: b', \"- c\"]\n- d".toList ['\n'] :=
    cut?_eq_some_iff_readsShortest.mp (by decide)
  have hf : GivesFlow [] "globs: [src/[a-z].ts, 'a: b', \"- c\"]".toList ["- d".toList]
      ["src/[a-z].ts".toList, " 'a: b'".toList, " \"- c\"".toList]
      ["src/[a-z].ts".toList, "a: b".toList, "- c".toList] :=
    ⟨⟨hasGlobs_iff.mpr ⟨by decide, by decide⟩, by decide, by decide, by decide, by decide⟩, by decide,
      .cons ⟨[], _, [], rfl, by decide, by decide, .inl rfl⟩
        (.cons ⟨[' '], _, [], rfl, by decide, by decide, .inr ⟨'\'', by simp, rfl⟩⟩
          (.cons ⟨[' '], _, [], rfl, by decide, by decide, .inr ⟨'"', by simp, rfl⟩⟩ .nil))⟩
  exact lists_give_same_globs hp ht (by decide) hi ht' (by decide) hf

end Header
end AgentRules
