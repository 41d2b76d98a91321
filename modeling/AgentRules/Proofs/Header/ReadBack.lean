import Mathlib
import AgentRules.Proofs.Header.Carried
import AgentRules.Proofs.Header.Grammar

/-!
# Reading a written header back

Every field of a header is written on a line of its own and read back from it, with lists as texts
in brackets. Only a key that begins with three dashes closes the block before its time, unless it
is the first. Main statements: `ofText_written` for the fields and `written_reads_back_iff` for the
header and the body.
-/

namespace AgentRules.Header

/-- A value after it has been written: a list comes back as a text. -/
def Value.flowed : Value → Value
  | .items ts => .text (flowList ts)
  | v => v

namespace Fields

def flowed (fs : Fields) : Fields := fs.map fun f => (f.1, f.2.flowed)

/-- The fields before the first one, but for the very first, whose key begins with three dashes. -/
def legible : Fields → Fields
  | [] => []
  | f :: fs => f :: fs.takeWhile fun g => !dashes.isPrefixOf g.1

theorem legible_isPrefix (fs : Fields) : fs.legible <+: fs := by
  cases fs with
  | nil => exact List.prefix_refl _
  | cons f fs =>
    rw [legible, List.cons_prefix_cons]
    exact ⟨rfl, List.takeWhile_prefix _⟩

theorem legible_eq_self_iff {fs : Fields} : fs.legible = fs ↔ ∀ f ∈ fs.tail, ¬ dashes <+: f.1 := by
  cases fs with
  | nil => simp [legible]
  | cons f fs => simp [legible, List.takeWhile_eq_self_iff, ← Bool.not_eq_true]

theorem legible_legible (fs : Fields) : fs.legible.legible = fs.legible := by
  cases fs with
  | nil => rfl
  | cons f fs =>
    rw [legible, legible, List.takeWhile_eq_self_iff.mpr]
    exact fun g hg => List.mem_takeWhile_imp (p := fun g : Text × Value => !dashes.isPrefixOf g.1) hg

theorem Carried.legible {fs : Fields} (h : fs.Carried) : fs.legible.Carried := h.sublist (legible_isPrefix fs).sublist

end Fields

/-! ## Values -/

theorem trim_flowList (ts : List Text) : Text.trim (flowList ts) = flowList ts :=
  Text.trim_between (by decide) (by decide) _

theorem trim_quoted (t : Text) : Text.trim (quoted t) = quoted t := Text.trim_between (by decide) (by decide) t

theorem unquote_quoted (t : Text) : Text.unquote (quoted t) = t := by
  simp [quoted, Text.unquote]

theorem unquote_of_not_needsQuotes {t : Text} (h : needsQuotes t = false) : Text.unquote t = t := by
  unfold Text.unquote
  split
  · next r =>
    split
    · next hr =>
      -- A text between two marks would need marks of its own.
      cases r with
      | nil => cases hr
      | cons c r =>
        rw [← List.getLast?_cons_cons (a := '"')] at hr
        simp [needsQuotes, hr] at h
    · rfl
  · rfl

theorem Value.ofText_text {t : Text} (ht : t ≠ "true".toList) (hf : t ≠ "false".toList) :
    Value.ofText t = .text (Text.unquote t) := by
  rw [Value.ofText, if_neg ht, if_neg hf]

theorem ofText_written_value (v : Value) : Value.ofText (Text.trim v.written) = v.flowed := by
  cases v with
  | flag b => cases b <;> decide
  | items ts =>
    have hne : ∀ {u : Text}, u.head? ≠ some '[' → flowList ts ≠ u := fun hu e => hu (by rw [← e]; rfl)
    have hq : Text.unquote (flowList ts) = flowList ts := rfl
    simp only [Value.written, Value.flowed]
    rw [trim_flowList, Value.ofText_text (hne (by decide)) (hne (by decide)), hq]
  | text t =>
    simp only [Value.written, Value.flowed]
    cases hn : needsQuotes t with
    | true =>
      have hne : ∀ {u : Text}, u.head? ≠ some '"' → quoted t ≠ u := fun hu e => hu (by rw [← e]; rfl)
      simp only [ite_true]
      rw [trim_quoted, Value.ofText_text (hne (by decide)) (hne (by decide)), unquote_quoted]
    | false =>
      have hq := unquote_of_not_needsQuotes hn
      simp only [needsQuotes, Bool.or_eq_false_iff, decide_eq_false_iff_not, bne_eq_false_iff_eq] at hn
      simp only [Bool.false_eq_true, ite_false]
      rw [← hn.1.2, Value.ofText_text hn.1.1.1 hn.1.1.2, hq]

theorem unbroken_written {v : Value} (h : v.Unbroken) : Text.Unbroken v.written := by
  have hq : ∀ {t : Text}, Text.Unbroken t → Text.Unbroken (quoted t) := fun ht => by
    rw [quoted, Text.unbroken_append, Text.unbroken_cons]
    exact ⟨⟨by decide, ht⟩, by decide⟩
  cases v with
  | flag b => cases b <;> decide
  | items ts =>
    rw [Value.written, flowList, Text.unbroken_append, Text.unbroken_cons]
    refine ⟨⟨by decide, Text.Unbroken.join (by decide) fun t ht => ?_⟩, by decide⟩
    obtain ⟨u, hu, rfl⟩ := List.mem_map.mp ht
    exact hq (h u hu)
  | text t =>
    simp only [Value.written]
    split
    · exact hq h
    · exact h

/-! ## Lines -/

theorem fieldLine_eq (f : Text × Value) : fieldLine f = f.1 ++ ':' :: ' ' :: f.2.written := by
  simp [fieldLine]

theorem fieldLine_ne_nil (f : Text × Value) : fieldLine f ≠ [] := by
  simp [fieldLine_eq]

theorem unbroken_fieldLine {f : Text × Value} (hk : IsKey f.1) (hv : f.2.Unbroken) : Text.Unbroken (fieldLine f) := by
  rw [fieldLine_eq, Text.unbroken_append, Text.unbroken_cons, Text.unbroken_cons]
  exact ⟨hk.unbroken, by decide, by decide, unbroken_written hv⟩

theorem trim_key_append {k : Text} (hk : IsKey k) (w : Text) :
    Text.trim (k ++ ':' :: w) = k ++ ':' :: Text.trimRight w := by
  rw [Text.trim_append_cons (by decide), Text.trimLeft_eq_self_iff.mpr (Text.trim_eq_self_iff.mp hk.trimmed).1]

theorem lineOfText_key_append {k : Text} (hk : IsKey k) (w : Text) :
    Line.ofText (k ++ ':' :: w) = .field k (Text.trim w) := by
  have hc : Text.cut? ':' (k ++ ':' :: w) = some (k, w) := Text.cut?_eq_some_iff.mpr ⟨rfl, hk.plain⟩
  rw [Line.ofText_of_not_item, hc]
  · simp only [hk.trimmed]
  · rw [trim_key_append hk]
    intro h
    have : ':' ∈ ['-'] := by rw [← h]; simp
    exact absurd this (by decide)
  · rw [trim_key_append hk]
    intro h
    cases k with
    | nil => exact absurd h (by simp [List.cons_prefix_cons])
    | cons c k =>
      cases k with
      | nil => exact absurd h (by simp [List.cons_prefix_cons])
      | cons d k =>
        simp only [List.cons_append, List.cons_prefix_cons] at h
        exact hk.notItem (by simp [List.cons_prefix_cons, ← h.1, ← h.2.1])

theorem lineOfText_fieldLine {f : Text × Value} (hk : IsKey f.1) :
    Line.ofText (fieldLine f) = .field f.1 (Text.trim f.2.written) := by
  rw [fieldLine_eq, lineOfText_key_append hk, Text.trim_cons_blank (by decide)]

theorem isIndented_fieldLine {f : Text × Value} (hk : IsKey f.1) : isIndented (fieldLine f) = false := by
  rw [fieldLine_eq]
  cases hf : f.1 with
  | nil => rfl
  | cons c k =>
    have hb := (Text.trim_eq_self_iff.mp hk.trimmed).1 c (by rw [hf]; rfl)
    rw [List.cons_append, isIndented]
    cases hs : decide (c = ' ') with
    | true => rw [of_decide_eq_true hs] at hb; exact absurd hb (by decide)
    | false =>
      cases ht : decide (c = '\t') with
      | true => rw [of_decide_eq_true ht] at hb; exact absurd hb (by decide)
      | false => rfl

theorem dashes_prefix_fieldLine (f : Text × Value) : dashes <+: fieldLine f ↔ dashes <+: f.1 := by
  rw [fieldLine_eq, Text.prefix_append_cons (by decide)]

theorem allBlank_fieldLine (f : Text × Value) : Text.allBlank (fieldLine f) = false := by
  rw [fieldLine_eq, Text.allBlank, List.all_eq_false]
  exact ⟨':', by simp, by decide⟩

/-! ## Blocks -/

theorem wellIndented_of_not_indented : ∀ {ls : List Text} {previous : Text},
    (∀ l ∈ ls, isIndented l = false) → wellIndented previous ls = true
  | [], _, _ => rfl
  | l :: ls, _, h => by
    rw [wellIndented, isMisplaced, h l (by simp), wellIndented_of_not_indented fun m hm => h m (List.mem_cons_of_mem _ hm)]
    rfl

/-- Lines of fields with different keys give these fields in their order. -/
theorem gather_fields : ∀ {gs fs : Fields}, (fs.keys ++ gs.keys).Nodup →
    gather fs (gs.map fun f => .field f.1 (Text.trim f.2.written)) = fs ++ gs.flowed
  | [], fs, _ => by simp [gather, Fields.flowed]
  | g :: gs, fs, h => by
    have hitems : itemsAtFront (gs.map fun f => Line.field f.1 (Text.trim f.2.written)) = [] := by
      cases gs <;> rfl
    have hv : Value.ofLines (Text.trim g.2.written) (gs.map fun f => .field f.1 (Text.trim f.2.written)) =
        g.2.flowed := by
      rw [Value.ofLines, hitems, ← ofText_written_value]; simp
    have hg : g.1 ∉ fs.keys := fun hm => (List.nodup_append.mp h).2.2 _ hm g.1 (by simp [Fields.keys]) rfl
    rw [List.map_cons, gather_field, hv, Fields.put_of_not_mem _ hg, gather_fields (by
      simpa [Fields.keys] using h)]
    simp [Fields.flowed]

theorem ofBlock_join_fieldLine {fs : Fields} (h : fs.Carried) :
    ofBlock (Text.join ['\n'] (fs.map fieldLine)) = .fields fs.flowed := by
  have hlines : blockLines (Text.join ['\n'] (fs.map fieldLine)) = fs.map fieldLine := by
    rw [blockLines, Text.lines_join, List.filter_eq_self.mpr]
    · intro l hl
      obtain ⟨f, -, rfl⟩ := List.mem_map.mp hl
      rw [allBlank_fieldLine]; rfl
    · intro l hl
      obtain ⟨f, hf, rfl⟩ := List.mem_map.mp hl
      exact ⟨unbroken_fieldLine (h.key f hf) (h.value f hf), fieldLine_ne_nil f⟩
  have hindent : wellIndented [] (fs.map fieldLine) = true := by
    refine wellIndented_of_not_indented fun l hl => ?_
    obtain ⟨f, hf, rfl⟩ := List.mem_map.mp hl
    exact isIndented_fieldLine (h.key f hf)
  have hmap : (fs.map fieldLine).map Line.ofText = fs.map fun f => .field f.1 (Text.trim f.2.written) := by
    rw [List.map_map]
    exact List.map_congr_left fun f hf => lineOfText_fieldLine (h.key f hf)
  have hgather : gather [] (fs.map fun f => .field f.1 (Text.trim f.2.written)) = [] ++ fs.flowed :=
    gather_fields (by simpa [Fields.keys] using h.nodup)
  simp only [ofBlock, hlines, hindent, ite_true, hmap, hgather, List.nil_append]

/-! ## The whole header -/

theorem return_not_mem_block {fs : Fields} (h : fs.Carried) : '\r' ∉ Text.join ['\n'] (fs.map fieldLine) := by
  intro hm
  rcases Text.mem_join hm with hm | ⟨l, hl, hm⟩
  · exact absurd hm (by decide)
  · obtain ⟨f, hf, rfl⟩ := List.mem_map.mp hl
    exact (unbroken_fieldLine (h.key f hf) (h.value f hf)).not_mem (by decide) hm

/-- No line of legible fields closes the block. -/
theorem closing_not_infix_block {fs : Fields} (h : fs.Carried) (hl : fs.legible = fs) :
    ¬ closing <:+: Text.join ['\n'] (fs.map fieldLine) := by
  cases fs with
  | nil => decide
  | cons f fs =>
    have hrows : Text.rows (Text.join ['\n'] ((f :: fs).map fieldLine)) = (f :: fs).map fieldLine := by
      refine Text.fields_join (by simp) fun l hl => ?_
      obtain ⟨g, hg, rfl⟩ := List.mem_map.mp hl
      exact (unbroken_fieldLine (h.key g hg) (h.value g hg)).not_mem (by decide)
    rw [closing_infix_iff, hrows]
    rintro ⟨r, hr, hp⟩
    obtain ⟨g, hg, rfl⟩ := List.mem_map.mp hr
    exact Fields.legible_eq_self_iff.mp hl g hg ((dashes_prefix_fieldLine g).mp hp)

/-- The fields after the legible ones start with three dashes, if there are any. -/
theorem Fields.legible_rest {fs : Fields} (h : fs.legible ≠ fs) :
    ∃ g gs, fs = fs.legible ++ g :: gs ∧ fs.legible ≠ [] ∧ dashes <+: g.1 := by
  cases fs with
  | nil => exact absurd rfl h
  | cons f fs =>
    have hsplit := List.takeWhile_append_dropWhile (p := fun g : Text × Value => !dashes.isPrefixOf g.1) (l := fs)
    cases hd : fs.dropWhile fun g => !dashes.isPrefixOf g.1 with
    | nil =>
      rw [hd, List.append_nil] at hsplit
      exact absurd (by rw [legible, hsplit]) h
    | cons g gs =>
      have hg := List.head?_dropWhile_not (fun g : Text × Value => !dashes.isPrefixOf g.1) fs
      rw [hd] at hg hsplit
      refine ⟨g, gs, by rw [legible, List.cons_append, hsplit], by simp [legible], ?_⟩
      simpa using hg

theorem written_append (fs : Fields) (b : Text) :
    written fs ++ b = dashes ++ '\n' :: (Text.join ['\n'] (fs.map fieldLine) ++ closing ++ '\n' :: b) := by
  simp [written, closing]

theorem cut?_written {fs : Fields} (h : fs.Carried) (b : Text) :
    ∃ rest, cut? (written fs ++ b) = some (Text.join ['\n'] (fs.legible.map fieldLine), rest) ∧
      (fs.legible = fs → rest = '\n' :: b) := by
  rw [written_append, cut?_dashes_newline]
  have hclose := closing_not_infix_block h.legible fs.legible_legible
  have hret := withoutReturn_of_not_mem (return_not_mem_block h.legible)
  by_cases hl : fs.legible = fs
  · refine ⟨'\n' :: b, ?_, fun _ => rfl⟩
    rw [hl] at hclose hret ⊢
    rw [cutBlock?_append hclose, hret]
  · obtain ⟨g, gs, hfs, hne, k, hk⟩ := Fields.legible_rest hl
    -- The line of the first illegible field is taken for the end of the block.
    have htext : ∃ rest, Text.join ['\n'] (fs.map fieldLine) ++ closing ++ '\n' :: b =
        Text.join ['\n'] (fs.legible.map fieldLine) ++ closing ++ rest := by
      have hline : fieldLine g = dashes ++ (k ++ ':' :: ' ' :: g.2.written) := by
        rw [fieldLine_eq, ← hk]; simp
      have hjoin : ∃ u, Text.join ['\n'] ((g :: gs).map fieldLine) = fieldLine g ++ u := by
        cases gs with
        | nil => exact ⟨[], by simp [Text.join]⟩
        | cons g' gs => exact ⟨_, by rw [List.map_cons, Text.join_cons _ (by simp), List.append_assoc]⟩
      obtain ⟨u, hu⟩ := hjoin
      refine ⟨k ++ ':' :: ' ' :: g.2.written ++ u ++ closing ++ '\n' :: b, ?_⟩
      conv_lhs => rw [hfs]
      rw [List.map_append, Text.join_append _ (by simpa using hne) (by simp), hu, hline]
      simp [closing]
    obtain ⟨rest, hrest⟩ := htext
    refine ⟨rest, ?_, fun e => absurd e hl⟩
    rw [hrest, cutBlock?_append hclose, hret]

theorem ofText_written {fs : Fields} (h : fs.Carried) (b : Text) :
    ofText (written fs ++ b) = .fields fs.legible.flowed := by
  obtain ⟨rest, hcut, -⟩ := cut?_written h b
  rw [ofText, hcut]
  exact ofBlock_join_fieldLine h.legible

theorem body_written {fs : Fields} (h : fs.Carried) (hl : fs.legible = fs) (b : Text) : body (written fs ++ b) = b := by
  obtain ⟨rest, hcut, hrest⟩ := cut?_written h b
  rw [body_of_cut? hcut, hrest hl]
  rfl

/-- **Reading a written header back.** What has been read from a text and is written before a body
is read again with the same keys in their order and every list as a text in brackets, and the body
is found again, as long as no key but the first begins with three dashes, and only then. -/
theorem written_reads_back_iff {t : Text} {fs : Fields} (h : ofText t = .fields fs) (b : Text) :
    (ofText (written fs ++ b) = .fields fs.flowed ∧ body (written fs ++ b) = b) ↔
      ∀ f ∈ fs.tail, ¬ dashes <+: f.1 := by
  have hc := carried_of_ofText h
  rw [← Fields.legible_eq_self_iff]
  constructor
  · rintro ⟨hf, -⟩
    rw [ofText_written hc, Header.fields.injEq] at hf
    have hlen : fs.legible.length = fs.length := by
      have := congrArg List.length hf
      simpa [Fields.flowed] using this
    exact (Fields.legible_isPrefix fs).eq_of_length hlen
  · intro hl
    exact ⟨by rw [ofText_written hc, hl], body_written hc hl b⟩

/-- A text that looks like a flag, an empty text, a list and a first key of dashes, before a body
that looks like a header. -/
theorem dashed_key_reads_back :
    ofText "---\n---x: \"true\"\nempty:\nglobs:\n- \"*.ts\"\n- b\n---\n".toList =
        .fields [("---x".toList, .text "true".toList), ("empty".toList, .text []),
          ("globs".toList, .items ["*.ts".toList, "b".toList])] ∧
      ofText (written [("---x".toList, .text "true".toList), ("empty".toList, .text []),
          ("globs".toList, .items ["*.ts".toList, "b".toList])] ++ "\n---\nx".toList) =
        .fields [("---x".toList, .text "true".toList), ("empty".toList, .text []),
          ("globs".toList, .text "[\"*.ts\", \"b\"]".toList)] := by
  have h : ofText "---\n---x: \"true\"\nempty:\nglobs:\n- \"*.ts\"\n- b\n---\n".toList =
      .fields [("---x".toList, .text "true".toList), ("empty".toList, .text []),
        ("globs".toList, .items ["*.ts".toList, "b".toList])] := by decide
  exact ⟨h, ((written_reads_back_iff h "\n---\nx".toList).mpr (by decide)).1⟩

end AgentRules.Header
