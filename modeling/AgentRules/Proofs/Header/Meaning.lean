import Mathlib
import AgentRules.Proofs.Header.Carried

/-!
# What the lines of a header mean

Reading goes over the lines once and keeps what it has found so far. What comes of it can be said of
the lines as a whole: a line is stray or not by itself and the line before it, the keys stand in the
order in which they first appear, and a key has the value of the last of its lines. Main statement:
`header_means_its_lines`.
-/

namespace AgentRules.Header

/-! ## Roles of lines -/

/-- A dash, alone or before a space. -/
def isItemLine (l : Text) : Bool := Text.trim l = ['-'] || ['-', ' '].isPrefixOf (Text.trim l)

def itemOf (l : Text) : Text := Text.unquote (Text.trim ((Text.trim l).drop 1))

def isFieldLine (l : Text) : Bool := !isItemLine l && l.contains ':'

/-- What stands before the first colon. -/
def keyOf (l : Text) : Text := Text.trim (l.takeWhile (· != ':'))

/-- What stands after the first colon. -/
def writtenOf (l : Text) : Text := Text.trim ((l.dropWhile (· != ':')).drop 1)

/-- The value of a field line before some other lines. -/
def valueOf (l : Text) (after : List Text) : Value :=
  if writtenOf l ≠ [] then Value.ofText (writtenOf l)
  else if after.takeWhile isItemLine ≠ [] then .items ((after.takeWhile isItemLine).map itemOf)
  else .text []

def keysOf (ls : List Text) : List Text := (ls.filter isFieldLine).map keyOf

/-- A line with an indentation that it should not have, after the lines before it. -/
structure Stray (before : List Text) (l : Text) : Prop where
  indented : l.head? = some ' ' ∨ l.head? = some '\t'
  noItem : (Text.trim l).head? ≠ some '-'
  noList : ∀ p ∈ before.getLast?, (Text.trimRight p).getLast? ≠ some ':'

/-- Fields that say what the lines say. -/
structure Means (ls : List Text) (fs : Fields) : Prop where
  keys : fs.keys = (keysOf ls).eraseDups
  value : ∀ before l after, ls = before ++ l :: after → isFieldLine l = true → keyOf l ∉ keysOf after →
    fs.get? (keyOf l) = some (valueOf l after)

/-! ## Reading one line -/

theorem isItemLine_iff {l : Text} : isItemLine l = true ↔ Text.trim l = ['-'] ∨ ['-', ' '] <+: Text.trim l := by
  simp [isItemLine]

theorem isItemLine_eq_false_iff {l : Text} :
    isItemLine l = false ↔ Text.trim l ≠ ['-'] ∧ ¬ ['-', ' '] <+: Text.trim l := by
  rw [← Bool.not_eq_true, isItemLine_iff, not_or]

theorem Line.ofText_of_item {l : Text} (h : isItemLine l = true) : Line.ofText l = .item (itemOf l) := by
  rcases isItemLine_iff.mp h with h | ⟨r, h⟩
  · rw [Line.ofText, itemOf, h]; rfl
  · rw [Line.ofText, itemOf, ← h]
    have hblank : Text.isBlank ' ' = true := by decide
    simp only [List.cons_append, List.nil_append, List.drop_succ_cons, List.drop_zero, Text.trim_cons_blank hblank]

theorem cut?_colon {l : Text} (h : ':' ∈ l) :
    Text.cut? ':' l = some (l.takeWhile (· != ':'), (l.dropWhile (· != ':')).drop 1) := by
  refine Text.cut?_eq_some_iff.mpr ⟨?_, fun hm => absurd (List.mem_takeWhile_imp hm) (by decide)⟩
  have hd : l.dropWhile (· != ':') ≠ [] := fun e => absurd (List.dropWhile_eq_nil_iff.mp e _ h) (by decide)
  obtain ⟨c, r, hc⟩ := List.exists_cons_of_ne_nil hd
  have hhead := List.head?_dropWhile_not (· != ':') l
  rw [hc] at hhead
  have hcolon : c = ':' := by simpa using hhead
  conv_lhs => rw [← List.takeWhile_append_dropWhile (p := (· != ':')) (l := l), hc, hcolon]
  rw [hc, List.drop_succ_cons, List.drop_zero]

theorem keyOf_append {k : Text} (h : ':' ∉ k) (w : Text) : keyOf (k ++ ':' :: w) = Text.trim k := by
  obtain ⟨hk, -⟩ := Text.eq_of_first h (fun hm => absurd (List.mem_takeWhile_imp hm) (by decide))
    (Text.cut?_eq_some_iff.mp (cut?_colon (l := k ++ ':' :: w) (by simp))).1
  rw [keyOf, ← hk]

theorem writtenOf_append {k : Text} (h : ':' ∉ k) (w : Text) : writtenOf (k ++ ':' :: w) = Text.trim w := by
  obtain ⟨-, hw⟩ := Text.eq_of_first h (fun hm => absurd (List.mem_takeWhile_imp hm) (by decide))
    (Text.cut?_eq_some_iff.mp (cut?_colon (l := k ++ ':' :: w) (by simp))).1
  rw [writtenOf, ← hw]

theorem Line.ofText_of_field {l : Text} (h : isFieldLine l = true) :
    Line.ofText l = .field (keyOf l) (writtenOf l) := by
  simp only [isFieldLine, Bool.and_eq_true, Bool.not_eq_true', List.contains_iff_mem] at h
  have hi := isItemLine_eq_false_iff.mp h.1
  rw [Line.ofText_of_not_item hi.1 hi.2, cut?_colon h.2]; rfl

theorem Line.ofText_of_other {l : Text} (hi : isItemLine l = false) (hf : isFieldLine l = false) :
    Line.ofText l = .other := by
  have hn := isItemLine_eq_false_iff.mp hi
  have hc : Text.cut? ':' l = none := by
    rw [Text.cut?_eq_none_iff]
    simpa [isFieldLine, hi] using hf
  rw [Line.ofText_of_not_item hn.1 hn.2, hc]

theorem itemsAtFront_map (ls : List Text) :
    itemsAtFront (ls.map Line.ofText) = (ls.takeWhile isItemLine).map itemOf := by
  induction ls with
  | nil => rfl
  | cons l ls ih =>
    by_cases hi : isItemLine l = true
    · rw [List.map_cons, Line.ofText_of_item hi, itemsAtFront, ih, List.takeWhile_cons_of_pos hi, List.map_cons]
    · rw [List.takeWhile_cons_of_neg hi, List.map_cons]
      by_cases hf : isFieldLine l = true
      · rw [Line.ofText_of_field hf]; rfl
      · rw [Line.ofText_of_other (by simpa using hi) (by simpa using hf)]; rfl

theorem ofLines_map (l : Text) (after : List Text) :
    Value.ofLines (writtenOf l) (after.map Line.ofText) = valueOf l after := by
  rw [Value.ofLines, itemsAtFront_map, valueOf]
  by_cases hw : writtenOf l = []
  · by_cases ht : after.takeWhile isItemLine = []
    · simp [hw, ht, Value.ofText, Text.unquote]
    · simp [hw, ht]
  · simp [hw]

/-! ## Putting fields -/

namespace Fields

theorem get?_put_self (k : Text) (v : Value) : ∀ fs : Fields, (fs.put k v).get? k = some v
  | [] => by simp [put, get?]
  | (j, w) :: fs => by
    by_cases hj : j = k
    · simp [put, get?, hj]
    · simp only [put, hj, ite_false, get?]
      exact get?_put_self k v fs

theorem get?_put_of_ne {j k : Text} (h : j ≠ k) (v : Value) : ∀ fs : Fields, (fs.put k v).get? j = fs.get? j
  | [] => by simp [put, get?, Ne.symm h]
  | (i, w) :: fs => by
    by_cases hi : i = k
    · simp [put, get?, hi, Ne.symm h]
    · simp only [put, hi, ite_false, get?, get?_put_of_ne h v fs]

/-- Fields are known by their keys, if none comes twice, and by what stands under each. -/
theorem ext_of_get? : ∀ {fs gs : Fields}, fs.keys = gs.keys → fs.keys.Nodup →
    (∀ k ∈ fs.keys, fs.get? k = gs.get? k) → fs = gs
  | [], [], _, _, _ => rfl
  | (j, v) :: fs, (i, w) :: gs, hk, hn, hv => by
    simp only [keys, List.map_cons, List.cons.injEq, List.nodup_cons] at hk hn
    obtain ⟨rfl, hk⟩ := hk
    have hvw : v = w := by simpa [keys, get?] using hv j
    have hrest : fs = gs := by
      refine ext_of_get? hk hn.2 fun k hkm => ?_
      have hne : j ≠ k := fun e => hn.1 (by rw [e]; exact hkm)
      simpa [get?, hne] using hv k (List.mem_cons_of_mem j hkm)
    rw [hvw, hrest]

end Fields

/-! ## Reading all lines -/

theorem keys_gather (ls : List Text) : ∀ fs : Fields,
    (gather fs (ls.map Line.ofText)).keys = fs.keys ++ ((keysOf ls).removeAll fs.keys).eraseDups := by
  induction ls with
  | nil => intro fs; simp [keysOf, gather, List.removeAll]
  | cons l ls ih =>
    intro fs
    by_cases hf : isFieldLine l = true
    · have hkeys : keysOf (l :: ls) = keyOf l :: keysOf ls := by simp [keysOf, hf]
      rw [List.map_cons, Line.ofText_of_field hf, gather_field, ih, hkeys, List.cons_removeAll]
      by_cases hk : keyOf l ∈ fs.keys
      · rw [Fields.keys_put_of_mem _ hk]
        simp [hk]
      · have hput : (fs.put (keyOf l) (Value.ofLines (writtenOf l) (ls.map Line.ofText))).keys =
            fs.keys ++ [keyOf l] := by
          rw [Fields.put_of_not_mem _ hk, Fields.keys, List.map_append]; rfl
        have hfilter : (keysOf ls).removeAll (fs.keys ++ [keyOf l]) =
            ((keysOf ls).removeAll fs.keys).filter fun k => !k == keyOf l := by
          rw [List.removeAll, List.removeAll, List.filter_filter]
          exact List.filter_congr fun k _ => by simp [Bool.and_comm, beq_eq_decide]
        rw [hput, hfilter]
        simp [hk, List.eraseDups_cons]
    · have hkeys : keysOf (l :: ls) = keysOf ls := by simp [keysOf, hf]
      rw [List.map_cons, hkeys]
      by_cases hi : isItemLine l = true
      · rw [Line.ofText_of_item hi, gather_item, ih]
      · rw [Line.ofText_of_other (by simpa using hi) (by simpa using hf), gather_other, ih]

/-- Lines without a key leave alone what stands under it. -/
theorem get?_gather_of_not_mem {k : Text} {ls : List Text} (h : k ∉ keysOf ls) : ∀ fs : Fields,
    (gather fs (ls.map Line.ofText)).get? k = fs.get? k := by
  induction ls with
  | nil => intro fs; rfl
  | cons l ls ih =>
    intro fs
    by_cases hf : isFieldLine l = true
    · simp only [keysOf, List.filter_cons_of_pos hf, List.map_cons, List.mem_cons, not_or] at h
      rw [List.map_cons, Line.ofText_of_field hf, gather_field, ih h.2, Fields.get?_put_of_ne h.1]
    · simp only [keysOf, List.filter_cons_of_neg hf] at h
      rw [List.map_cons]
      by_cases hi : isItemLine l = true
      · rw [Line.ofText_of_item hi, gather_item, ih h]
      · rw [Line.ofText_of_other (by simpa using hi) (by simpa using hf), gather_other, ih h]

/-- The last line of a key decides what stands under it. -/
theorem get?_gather {before after : List Text} {l : Text} (hf : isFieldLine l = true)
    (hk : keyOf l ∉ keysOf after) : ∀ fs : Fields,
    (gather fs ((before ++ l :: after).map Line.ofText)).get? (keyOf l) = some (valueOf l after) := by
  induction before with
  | nil =>
    intro fs
    rw [List.nil_append, List.map_cons, Line.ofText_of_field hf, gather_field, ofLines_map,
      get?_gather_of_not_mem hk, Fields.get?_put_self]
  | cons m before ih =>
    intro fs
    rw [List.cons_append, List.map_cons]
    cases Line.ofText m with
    | item t => rw [gather_item, ih]
    | field k v => rw [gather_field, ih]
    | other => rw [gather_other, ih]

theorem means_gather (ls : List Text) : Means ls (gather [] (ls.map Line.ofText)) where
  keys := by
    rw [keys_gather]
    simp [Fields.keys, List.removeAll]
  value before l after h hf hk := by rw [h, get?_gather hf hk]

/-- A key of some lines has a last line. -/
theorem exists_last_line {k : Text} {ls : List Text} (h : k ∈ keysOf ls) : ∃ before l after,
    ls = before ++ l :: after ∧ isFieldLine l = true ∧ keyOf l = k ∧ k ∉ keysOf after := by
  induction ls with
  | nil => simp [keysOf] at h
  | cons m ls ih =>
    by_cases hk : k ∈ keysOf ls
    · obtain ⟨before, l, after, rfl, hl⟩ := ih hk
      exact ⟨m :: before, l, after, rfl, hl⟩
    · have hm : isFieldLine m = true ∧ keyOf m = k := by
        by_cases hf : isFieldLine m = true
        · simp only [keysOf, List.filter_cons_of_pos hf, List.map_cons, List.mem_cons] at h hk
          exact ⟨hf, (h.resolve_right hk).symm⟩
        · simp only [keysOf, List.filter_cons_of_neg hf] at h hk
          exact absurd h hk
      exact ⟨[], m, ls, rfl, hm.1, hm.2, hk⟩

/-- Lines mean one thing. -/
theorem Means.unique {ls : List Text} {fs gs : Fields} (hf : Means ls fs) (hg : Means ls gs)
    (hn : fs.keys.Nodup) : gs = fs := by
  refine (Fields.ext_of_get? (hf.keys.trans hg.keys.symm) hn fun k hk => ?_).symm
  rw [hf.keys, List.mem_eraseDups] at hk
  obtain ⟨before, l, after, hls, hl, rfl, hlast⟩ := exists_last_line hk
  rw [hf.value before l after hls hl hlast, hg.value before l after hls hl hlast]

/-! ## Indentation -/

theorem isIndented_iff {l : Text} : isIndented l = true ↔ l.head? = some ' ' ∨ l.head? = some '\t' := by
  cases l <;> simp [isIndented]

theorem wellIndented_eq_false_iff {ls : List Text} : ∀ {p : Text}, wellIndented p ls = false ↔
    ∃ before l after, ls = before ++ l :: after ∧ isMisplaced (before.getLast?.getD p) l = true := by
  induction ls with
  | nil => intro p; simp [wellIndented]
  | cons m ls ih =>
    intro p
    rw [wellIndented, Bool.and_eq_false_iff, Bool.not_eq_false', ih]
    constructor
    · rintro (h | ⟨before, l, after, rfl, h⟩)
      · exact ⟨[], m, ls, rfl, h⟩
      · refine ⟨m :: before, l, after, rfl, ?_⟩
        rw [List.getLast?_cons]
        exact h
    · rintro ⟨before, l, after, hls, h⟩
      cases before with
      | nil =>
        rw [List.nil_append, List.cons.injEq] at hls
        rw [hls.1]
        exact Or.inl h
      | cons b before =>
        rw [List.cons_append, List.cons.injEq] at hls
        rw [List.getLast?_cons, ← hls.1] at h
        exact Or.inr ⟨before, l, after, hls.2, h⟩

theorem isMisplaced_getLast?_iff {before : List Text} {l : Text} :
    isMisplaced (before.getLast?.getD []) l = true ↔ Stray before l := by
  have hcolon : endsWithColon (before.getLast?.getD []) = false ↔
      ∀ p ∈ before.getLast?, (Text.trimRight p).getLast? ≠ some ':' := by
    cases before.getLast? <;> simp [endsWithColon]
  simp only [isMisplaced, Bool.and_eq_true, isIndented_iff, bne_iff_ne, Bool.not_eq_true', hcolon]
  exact ⟨fun ⟨⟨hi, hd⟩, hc⟩ => ⟨hi, hd, hc⟩, fun ⟨hi, hd, hc⟩ => ⟨⟨hi, hd⟩, hc⟩⟩

theorem wellIndented_eq_false_iff_stray {ls : List Text} :
    wellIndented [] ls = false ↔ ∃ before l after, ls = before ++ l :: after ∧ Stray before l := by
  simp only [wellIndented_eq_false_iff, isMisplaced_getLast?_iff]

/-! ## Headers -/

/-- **The meaning of a header.** Its indentation is not understood if a line of its block that is not
blank is stray, and only then. Otherwise it has the fields that its lines mean, and they mean no others. -/
theorem header_means_its_lines {t block rest : Text} (h : cut? t = some (block, rest)) :
    ((ofText t).error? = some "Invalid YAML indentation" ↔
        ∃ before l after, blockLines block = before ++ l :: after ∧ Stray before l) ∧
      ((ofText t).error? ≠ some "Invalid YAML indentation" → ∃ fs, ofText t = .fields fs ∧
        Means (blockLines block) fs ∧ ∀ gs, Means (blockLines block) gs → gs = fs) := by
  have hblock : ofText t = ofBlock block := by rw [ofText, h]
  rw [hblock, ofBlock, ← wellIndented_eq_false_iff_stray]
  by_cases hw : wellIndented [] (blockLines block) = true
  · have hmeans := means_gather (blockLines block)
    have hn : (gather [] ((blockLines block).map Line.ofText)).keys.Nodup := by
      refine (carried_of_ofText (t := t) ?_).nodup
      rw [hblock]
      exact if_pos hw
    simp only [hw, ite_true]
    exact ⟨by simp [error?], fun _ => ⟨_, rfl, hmeans, fun gs hgs => hmeans.unique hgs hn⟩⟩
  · have hw : wellIndented [] (blockLines block) = false := by simpa using hw
    simp [hw, error?]

/-- A key that comes again, items after a key with a value, and a key under a colon. -/
theorem tangled_lines_mean :
    cut? "---\na: x\n- lost\nb:\n  c: true\n- lost\nb:\n-\n  - \"z\"\nother\n- lost\n---".toList =
        some ("a: x\n- lost\nb:\n  c: true\n- lost\nb:\n-\n  - \"z\"\nother\n- lost".toList, []) ∧
      (ofText "---\na: x\n- lost\nb:\n  c: true\n- lost\nb:\n-\n  - \"z\"\nother\n- lost\n---".toList).error? ≠
        some "Invalid YAML indentation" ∧
      Means (blockLines "a: x\n- lost\nb:\n  c: true\n- lost\nb:\n-\n  - \"z\"\nother\n- lost".toList)
        [("a".toList, .text "x".toList), ("b".toList, .items [[], "z".toList]), ("c".toList, .flag true)] := by
  have hc : cut? "---\na: x\n- lost\nb:\n  c: true\n- lost\nb:\n-\n  - \"z\"\nother\n- lost\n---".toList =
      some ("a: x\n- lost\nb:\n  c: true\n- lost\nb:\n-\n  - \"z\"\nother\n- lost".toList, []) := by decide
  have hf : ofText "---\na: x\n- lost\nb:\n  c: true\n- lost\nb:\n-\n  - \"z\"\nother\n- lost\n---".toList =
      .fields [("a".toList, .text "x".toList), ("b".toList, .items [[], "z".toList]), ("c".toList, .flag true)] := by
    decide
  have he : (ofText "---\na: x\n- lost\nb:\n  c: true\n- lost\nb:\n-\n  - \"z\"\nother\n- lost\n---".toList).error? ≠
      some "Invalid YAML indentation" := by
    rw [hf]
    decide
  obtain ⟨fs, hfs, hmeans, -⟩ := (header_means_its_lines hc).2 he
  rw [hf, Header.fields.injEq] at hfs
  exact ⟨hc, he, by rw [hfs]; exact hmeans⟩

end AgentRules.Header
