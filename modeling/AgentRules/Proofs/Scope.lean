import Mathlib
import AgentRules.Mending
import AgentRules.Proofs.Header.ReadBack
import AgentRules.Proofs.Partition

/-!
# The scope of the parts of a document

A part has the header of its document, written anew: a list of globs now stands in brackets, where
patterns are cut at commas and lose one mark on each side. Main statements: which lists give the
same patterns either way (`ofValue_flowList_iff`), and when the parts of a document have its scope
(`parts_keep_scope_iff`).
-/

namespace AgentRules

/-! ## Patterns in brackets -/

namespace Glob

/-- A pattern that is read as it stands, on a line of its own and between commas. -/
def IsPlain (t : Text) : Prop := ',' ∉ t ∧ stripQuotes (Text.trim t) = t

/-- Takes one quotation mark off the end. -/
def withoutLastQuote (t : Text) : Text :=
  match t.getLast? with
  | some c => if Text.isQuote c then t.dropLast else t
  | none => t

theorem stripQuotes_cons (c : Char) (r : Text) :
    stripQuotes (c :: r) = withoutLastQuote (if Text.isQuote c then r else c :: r) := rfl

theorem withoutLastQuote_subset (t : Text) : withoutLastQuote t ⊆ t := by
  unfold withoutLastQuote
  split
  · split
    · exact List.dropLast_subset t
    · exact List.Subset.refl t
  · exact List.Subset.refl t

theorem stripQuotes_subset (t : Text) : stripQuotes t ⊆ t := by
  cases t with
  | nil => exact List.Subset.refl _
  | cons c r =>
    rw [stripQuotes_cons]
    intro d hd
    have hm := withoutLastQuote_subset _ hd
    split at hm
    · exact List.mem_cons_of_mem c hm
    · exact hm

theorem stripQuotes_between {m : Char} (h : Text.isQuote m = true) (t : Text) : stripQuotes (m :: t ++ [m]) = t := by
  simp [stripQuotes, h]

theorem stripQuotes_quoted (t : Text) : stripQuotes (Header.quoted t) = t := stripQuotes_between (by decide) t

theorem mem_withoutLastQuote {t : Text} {c : Char} (h : c ∈ t) (hq : Text.isQuote c = false) :
    c ∈ withoutLastQuote t := by
  unfold withoutLastQuote
  split
  · next d hd =>
    split
    · next hdq =>
      rw [← List.dropLast_append_getLast? d hd, List.mem_append, List.mem_singleton] at h
      rcases h with h | rfl
      · exact h
      · rw [hq] at hdq; cases hdq
    · exact h
  · exact h

/-- A character that is no quotation mark stays in a pattern. -/
theorem mem_stripQuotes {t : Text} {c : Char} (h : c ∈ t) (hq : Text.isQuote c = false) : c ∈ stripQuotes t := by
  cases t with
  | nil => cases h
  | cons d r =>
    rw [stripQuotes_cons]
    refine mem_withoutLastQuote ?_ hq
    split
    · next hd =>
      rcases List.mem_cons.mp h with rfl | h
      · rw [hq] at hd; cases hd
      · exact h
    · exact h

theorem comma_mem_stripQuotes_trim {t : Text} (h : ',' ∈ t) : ',' ∈ stripQuotes (Text.trim t) :=
  mem_stripQuotes ((Text.mem_trim_iff (by decide)).mpr h) (by decide)

theorem comma_not_mem_clean {t p : Text} (h : p ∈ clean (Text.fields ',' t)) : ',' ∉ p := by
  rw [clean, List.mem_filter, List.mem_map] at h
  obtain ⟨⟨u, hu, rfl⟩, -⟩ := h
  intro hm
  exact Text.sep_not_mem_fields hu (Text.mem_of_mem_trim (stripQuotes_subset _ hm))

/-- Quoted patterns between commas. -/
theorem fields_join_quoted : ∀ {us : List Text}, (∀ u ∈ us, ',' ∉ u) → ∀ u, ',' ∉ u →
    Text.fields ',' (Text.join [',', ' '] (u :: us)) = u :: us.map (' ' :: ·)
  | [], _, u, hu => Text.fields_of_not_mem hu
  | v :: us, h, u, hu => by
    have hv : ',' ∉ ' ' :: v := by
      rw [List.mem_cons, not_or]; exact ⟨by decide, h v (by simp)⟩
    have hjoin : ' ' :: Text.join [',', ' '] (v :: us) = Text.join [',', ' '] ((' ' :: v) :: us) := by
      cases us <;> rfl
    rw [Text.join_cons _ (by simp), List.append_assoc, List.cons_append, Text.fields_append_cons,
      Text.fields_of_not_mem hu, List.singleton_append, List.singleton_append, hjoin,
      fields_join_quoted (fun w hw => h w (List.mem_cons_of_mem _ hw)) _ hv]
    rfl

theorem clean_fields_flow {ts : List Text} (h : ∀ t ∈ ts, ',' ∉ t) :
    clean (Text.fields ',' (Text.join [',', ' '] (ts.map Header.quoted))) = ts.filter (!·.isEmpty) := by
  have hq : ∀ {t : Text}, ',' ∉ t → ',' ∉ Header.quoted t := fun ht => by
    simp [Header.quoted, ht]
  cases ts with
  | nil => rfl
  | cons t ts =>
    rw [List.map_cons, fields_join_quoted _ _ (hq (h t (by simp))), clean, List.map_cons, List.map_map, List.map_map,
      Header.trim_quoted, stripQuotes_quoted]
    · congr 2
      refine List.map_id'' (fun u => ?_) ts
      simp only [Function.comp]
      rw [Text.trim_cons_blank (by decide), Header.trim_quoted, stripQuotes_quoted]
    · intro u hu
      obtain ⟨v, hv, rfl⟩ := List.mem_map.mp hu
      exact hq (h v (List.mem_cons_of_mem _ hv))

/-- The patterns of a list in brackets. -/
theorem ofValue_flowList (ts : List Text) : ofValue (some (.text (Header.flowList ts))) =
    clean (Text.fields ',' (Text.join [',', ' '] (ts.map Header.quoted))) := by
  have hinside : inside (Text.join [',', ' '] (ts.map Header.quoted) ++ [']']) =
      Text.join [',', ' '] (ts.map Header.quoted) := by
    rw [inside, if_pos List.getLast?_concat, List.dropLast_concat]
  rw [ofValue, Header.trim_flowList, Header.flowList, List.cons_append]
  simp only [hinside]

/-- Mapping changes nothing but empty texts only if it changes nothing at all. -/
theorem filter_map_eq_filter_iff {g : Text → Text} (hg : g [] = []) (ts : List Text) :
    ts.filter (!·.isEmpty) = (ts.map g).filter (!·.isEmpty) ↔ ∀ t ∈ ts, g t = t := by
  have hlen : ∀ us : List Text, ((us.map g).filter (!·.isEmpty)).length ≤ (us.filter (!·.isEmpty)).length := by
    intro us
    rw [← List.countP_eq_length_filter, ← List.countP_eq_length_filter, List.countP_map]
    refine List.countP_mono_left fun u _ hu => ?_
    cases u with
    | nil => simp [hg] at hu
    | cons c u => rfl
  constructor
  · intro h
    induction ts with
    | nil => simp
    | cons t ts ih =>
      cases t with
      | nil =>
        have h' : ts.filter (!·.isEmpty) = (ts.map g).filter (!·.isEmpty) := by simpa [hg] using h
        simpa [hg] using ih h'
      | cons c t =>
        cases ht : g (c :: t) with
        | nil =>
          have := congrArg List.length h
          simp only [List.map_cons, ht, List.filter_cons_of_pos (p := fun u : Text => !u.isEmpty) (a := c :: t) rfl,
            List.filter_cons_of_neg (p := fun u : Text => !u.isEmpty) (a := ([] : Text)) (by simp),
            List.length_cons] at this
          have := hlen ts
          omega
        | cons d u =>
          simp only [List.map_cons, ht, List.filter_cons_of_pos (p := fun u : Text => !u.isEmpty) (a := c :: t) rfl,
            List.filter_cons_of_pos (p := fun u : Text => !u.isEmpty) (a := d :: u) rfl, List.cons.injEq] at h
          rw [List.forall_mem_cons]
          refine ⟨by rw [ht, h.1.1, h.1.2], ih h.2⟩
  · intro h
    rw [List.map_congr_left (g := id) h, List.map_id]

/-- **Lists in brackets.** They give the patterns of the list they are made of if every item is
plain, and only then. -/
theorem ofValue_flowList_iff (ts : List Text) :
    ofValue (some (.text (Header.flowList ts))) = ofValue (some (.items ts)) ↔ ∀ t ∈ ts, IsPlain t := by
  have hitems : ofValue (some (.items ts)) = (ts.map fun t => stripQuotes (Text.trim t)).filter (!·.isEmpty) := rfl
  rw [ofValue_flowList, hitems]
  by_cases hc : ∀ t ∈ ts, ',' ∉ t
  · rw [clean_fields_flow hc, filter_map_eq_filter_iff rfl]
    exact ⟨fun h t ht => ⟨hc t ht, h t ht⟩, fun h t ht => (h t ht).2⟩
  · -- A comma stays in a pattern from a line, and no pattern from between commas has one.
    simp only [not_forall, not_not] at hc
    obtain ⟨t, ht, hct⟩ := hc
    constructor
    · intro h
      have hcm := comma_mem_stripQuotes_trim hct
      have hm : stripQuotes (Text.trim t) ∈ (ts.map fun t => stripQuotes (Text.trim t)).filter (!·.isEmpty) :=
        List.mem_filter.mpr ⟨List.mem_map.mpr ⟨t, ht, rfl⟩, by
          simpa using List.ne_nil_of_mem hcm⟩
      rw [← h] at hm
      exact absurd hcm (comma_not_mem_clean hm)
    · intro h
      exact absurd hct (h t ht).1

end Glob

/-! ## Looking fields up -/

namespace Header.Fields

theorem get?_flowed (k : Text) : ∀ fs : Fields, fs.flowed.get? k = (fs.get? k).map Value.flowed
  | [] => rfl
  | (j, v) :: fs => by
    have ih := get?_flowed k fs
    by_cases h : j = k
    · simp [flowed, get?, h]
    · simpa [flowed, get?, h] using ih

theorem get?_eq_none_of_not_mem {k : Text} : ∀ {fs : Fields}, k ∉ fs.keys → fs.get? k = none
  | [], _ => rfl
  | (j, v) :: fs, h => by
    simp only [keys, List.map_cons, List.mem_cons, not_or] at h
    rw [get?, if_neg (Ne.symm h.1)]
    exact get?_eq_none_of_not_mem h.2

theorem get?_append_of_mem {k : Text} (gs : Fields) : ∀ {fs : Fields}, k ∈ fs.keys → get? k (fs ++ gs) = fs.get? k
  | [], h => by simp [keys] at h
  | (j, v) :: fs, h => by
    by_cases hj : j = k
    · simp [get?, hj]
    · have hk : k ∈ keys fs := by simpa [keys, Ne.symm hj] using h
      simp only [List.cons_append, get?, hj, ite_false]
      exact get?_append_of_mem gs hk

theorem get?_legible {k : Text} {fs : Fields} (h : k ∈ fs.legible.keys) : fs.legible.get? k = fs.get? k := by
  obtain ⟨gs, hg⟩ := legible_isPrefix fs
  conv_rhs => rw [← hg]
  exact (get?_append_of_mem gs h).symm

/-- The fields of a header keep their scope when they are written: those that give the scope are
legible, and the patterns of a list are plain. -/
structure KeepsScope (fs : Fields) : Prop where
  always : fs.get? "alwaysApply".toList = some (.flag true) → "alwaysApply".toList ∈ fs.legible.keys
  globs : Glob.ofValue (fs.get? "globs".toList) ≠ [] → "globs".toList ∈ fs.legible.keys
  plain : ∀ ts, fs.legible.get? "globs".toList = some (.items ts) → ∀ t ∈ ts, Glob.IsPlain t

end Header.Fields

/-! ## Scopes -/

namespace Header

theorem always_flowed_iff (fs : Fields) (k : Text) :
    (fs.legible.flowed.get? k = some (.flag true) ↔ fs.get? k = some (.flag true)) ↔
      (fs.get? k = some (.flag true) → k ∈ fs.legible.keys) := by
  have hflag : ∀ v : Option Value, v.map Value.flowed = some (.flag true) ↔ v = some (.flag true) := by
    intro v
    rcases v with _ | ⟨b⟩ | t | ts <;> simp [Value.flowed]
  rw [Fields.get?_flowed, hflag]
  by_cases hk : k ∈ fs.legible.keys
  · rw [Fields.get?_legible hk]; simp [hk]
  · rw [Fields.get?_eq_none_of_not_mem hk]; simp [hk]

theorem globs_flowed_iff (fs : Fields) (k : Text) :
    Glob.ofValue (fs.legible.flowed.get? k) = Glob.ofValue (fs.get? k) ↔
      (Glob.ofValue (fs.get? k) ≠ [] → k ∈ fs.legible.keys) ∧
        ∀ ts, fs.legible.get? k = some (.items ts) → ∀ t ∈ ts, Glob.IsPlain t := by
  rw [Fields.get?_flowed]
  by_cases hk : k ∈ fs.legible.keys
  · rw [Fields.get?_legible hk]
    rcases fs.get? k with _ | ⟨b⟩ | t | ts
    · simp [hk]
    · simp [Value.flowed, Glob.ofValue]
    · simp [Value.flowed, hk]
    · have hflow : (some (Value.items ts)).map Value.flowed = some (.text (flowList ts)) := rfl
      rw [hflow, Glob.ofValue_flowList_iff]
      simp [hk]
  · have hnone : Glob.ofValue none = [] := rfl
    rw [Fields.get?_eq_none_of_not_mem hk, Option.map_none, hnone]
    constructor
    · intro h
      exact ⟨fun hne => absurd h.symm hne, by simp⟩
    · rintro ⟨hg, -⟩
      by_contra hne
      exact hk (hg (Ne.symm hne))

theorem scope_written_iff {fs : Fields} (h : fs.Carried) (b : Text) :
    (ofText (written fs ++ b)).scope = (fields fs).scope ↔ fs.KeepsScope := by
  have hscope : ∀ {gs : Fields}, (fields gs).scope =
      ⟨gs.get? "alwaysApply".toList = some (.flag true), Glob.ofValue (gs.get? "globs".toList)⟩ := rfl
  rw [ofText_written h, hscope, hscope, Scope.mk.injEq, decide_eq_decide, always_flowed_iff, globs_flowed_iff]
  exact ⟨fun ⟨ha, hg, hp⟩ => ⟨ha, hg, hp⟩, fun ⟨ha, hg, hp⟩ => ⟨ha, hg, hp⟩⟩

end Header

theorem Rule.tier_eq {r q : Rule} (hk : r.kind = q.kind) (hs : r.scope = q.scope) : r.tier = q.tier := by
  rw [Rule.tier, Rule.tier, hk, hs]

namespace Mending.Run

theorem partText_of_fields {h : Header} {fs : Header.Fields} (hf : h = .fields fs) (q : Part) :
    partText h q = Header.written fs ++ q.body := by
  rw [hf]; rfl

/-- **The scope of parts.** The parts of a document have its scope, and so its tier, if its fields
keep their scope when they are written, and only then. -/
theorem parts_keep_scope_iff {t : Text} {fs : Header.Fields} (h : Header.ofText t = .fields fs) {budget : Int}
    {ps : List Part} (hp : partition? budget t = some ps) (name : Part → String) (i : String) :
    (∀ q ∈ ps,
        (Rule.mk (name q) .modern (partText (Header.ofText t) q)).scope = (Rule.mk i .modern t).scope ∧
        (Rule.mk (name q) .modern (partText (Header.ofText t) q)).tier = (Rule.mk i .modern t).tier) ↔
      fs.KeepsScope := by
  have hscope : ∀ q, (Rule.mk (name q) .modern (partText (Header.ofText t) q)).scope = (Rule.mk i .modern t).scope ↔
      fs.KeepsScope := by
    intro q
    have hpart : (Rule.mk (name q) .modern (partText (Header.ofText t) q)).scope =
        (Header.ofText (Header.written fs ++ q.body)).scope := by
      rw [partText_of_fields h]; rfl
    have hwhole : (Rule.mk i .modern t).scope = (Header.fields fs).scope := by
      rw [← h]; rfl
    rw [hpart, hwhole, Header.scope_written_iff (Header.carried_of_ofText h)]
  constructor
  · intro hall
    obtain ⟨q, hq⟩ := exists_part hp
    exact (hscope q).mp (hall q hq).1
  · intro hk q _
    exact ⟨(hscope q).mpr hk, Rule.tier_eq rfl ((hscope q).mpr hk)⟩

/-- Patterns on lines of their own, with blanks and a mark inside, keep their place in brackets. -/
theorem plain_globs_keep_scope :
    Header.ofText "---\nglobs:\n- src/*.ts\n- \"a 'b' c\"\n---\none\n\ntwo".toList =
        .fields [("globs".toList, .items ["src/*.ts".toList, "a 'b' c".toList])] ∧
      partition? 1 "---\nglobs:\n- src/*.ts\n- \"a 'b' c\"\n---\none\n\ntwo".toList =
        some [⟨1, "one".toList⟩, ⟨2, "two".toList⟩] ∧
      (Rule.mk "x-part1" .modern (partText
          (Header.ofText "---\nglobs:\n- src/*.ts\n- \"a 'b' c\"\n---\none\n\ntwo".toList) ⟨1, "one".toList⟩)).scope =
        (Rule.mk "x" .modern "---\nglobs:\n- src/*.ts\n- \"a 'b' c\"\n---\none\n\ntwo".toList).scope := by
  have h : Header.ofText "---\nglobs:\n- src/*.ts\n- \"a 'b' c\"\n---\none\n\ntwo".toList =
      .fields [("globs".toList, .items ["src/*.ts".toList, "a 'b' c".toList])] := by decide
  have hp : partition? 1 "---\nglobs:\n- src/*.ts\n- \"a 'b' c\"\n---\none\n\ntwo".toList =
      some [⟨1, "one".toList⟩, ⟨2, "two".toList⟩] := by decide
  have hk : Header.Fields.KeepsScope [("globs".toList, .items ["src/*.ts".toList, "a 'b' c".toList])] := by
    refine ⟨by decide, by decide, fun ts hts => ?_⟩
    rw [← Header.Value.items.inj (Option.some.inj hts)]
    unfold Glob.IsPlain
    decide
  exact ⟨h, hp, ((parts_keep_scope_iff h hp (fun _ => "x-part1") "x").mpr hk _ List.mem_cons_self).1⟩

/-- A comma in braces cuts a pattern in two. -/
theorem braced_glob_changes_scope :
    ∃ ps, partition? 1 "---\nglobs:\n- \"*.\x7bts,tsx\x7d\"\n---\none\n\ntwo".toList = some ps ∧ ∀ q ∈ ps,
      (Rule.mk "x-part1" .modern (partText
          (Header.ofText "---\nglobs:\n- \"*.\x7bts,tsx\x7d\"\n---\none\n\ntwo".toList) q)).scope =
        ⟨false, ["*.\x7bts".toList, "tsx\x7d".toList]⟩ ∧
      (Rule.mk "x" .modern "---\nglobs:\n- \"*.\x7bts,tsx\x7d\"\n---\none\n\ntwo".toList).scope =
        ⟨false, ["*.\x7bts,tsx\x7d".toList]⟩ := by
  exact ⟨[⟨1, "one".toList⟩, ⟨2, "two".toList⟩], by decide, by decide⟩

end Mending.Run
end AgentRules
