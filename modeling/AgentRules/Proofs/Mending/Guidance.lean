import Mathlib
import AgentRules.Proofs.Header.ReadBack
import AgentRules.Proofs.Mending.Outcome

/-!
# Guidance that survives mending

The lines of a body are guidance. Repair keeps the body, and the parts of a divided document have
all of its lines, so a line can be lost in one way only: a document that is left whole has the name
of a part and is written over. Main statements: `mem_documents_after_iff` for the texts there are
after a run, and `guidance_kept_iff`.
-/

namespace AgentRules.Mending

open Project (Document readText LiesIn)
open Run (parts? mended? partName partText)

/-- The lines of a body that are not blank, trimmed. -/
def guidance (x : Text) : List Text := (Text.inkedRows (Header.body x)).map Text.trim

/-- The trimmed lines of a document and those of its body, of which the first can start within a
line. -/
def documentLines (x : Text) : List Text := (Text.rows x ++ Text.rows (Header.body x)).map Text.trim

/-- The texts that remain: those of all parts, and the repaired ones of documents that are left
whole and have no part's name. -/
def Remains (o : MendOptions) (t : Tree) (p : Project) (y : Text) : Prop :=
  (∃ f ∈ newFiles o t p, f.2 = y) ∨
    ∃ d ∈ p.modernDocuments t, plan? o t d = none ∧ d.place ∉ newPlaces o t p ∧ repairedText t d = .ok y

/-! ## Parts -/

theorem return_not_mem_written {fs : Header.Fields} (h : fs.Carried) : '\r' ∉ Header.written fs := by
  unfold Header.written
  simp only [List.mem_append, List.mem_cons, not_or]
  exact ⟨⟨⟨by decide, by decide, Header.return_not_mem_block h⟩, by decide, by decide⟩, by decide, List.not_mem_nil⟩

section
variable {o : MendOptions} {t u : Tree} {p : Project} {f : Place × Text}

theorem return_not_mem_partText {budget : Int} {x : Text} (hx : '\r' ∉ x) {ps : List Part}
    (hp : partition? budget x = some ps) {q : Part} (hq : q ∈ ps) : '\r' ∉ partText (Header.ofText x) q := by
  have hbody : '\r' ∉ q.body := by
    intro hm
    have hchunk : q.body ∈ Partition.chunks budget (Header.body x) := by
      rw [← map_body_of_partition? hp]; exact List.mem_map_of_mem hq
    rcases Partition.mem_of_mem_chunks hchunk hm with hm | hm
    · exact hx ((Header.body_suffix x).subset hm)
    · exact absurd hm (by decide)
  unfold partText
  split
  · next fs hfs =>
    cases h : Header.ofText x with
    | absent => rw [h] at hfs; cases hfs
    | malformed => rw [h] at hfs; cases hfs
    | fields gs =>
      rw [h] at hfs
      rw [← Option.some.inj hfs, List.mem_append, not_or]
      exact ⟨return_not_mem_written (Header.carried_of_ofText h), hbody⟩
  · exact hbody

theorem mem_newFiles_iff : f ∈ newFiles o t p ↔ ∃ d ∈ p.modernDocuments t, ∃ x ps, repairedText t d = .ok x ∧
    plan? o t d = some ps ∧ ∃ q ∈ ps,
      f = ((Run.sibling d (partName d q)).place, partText (Header.ofText x) q) := by
  unfold newFiles plan?
  cases o.divide with
  | false => simp
  | true =>
    simp only [ite_true, Run.allPartFiles, List.mem_flatMap]
    refine exists_congr fun d => and_congr_right fun _ => ?_
    cases hx : repairedText t d with
    | error e => simp [Run.partFiles]
    | ok x =>
      simp only [Run.partFiles, List.mem_map, parts?, Except.ok.injEq]
      constructor
      · rintro ⟨q, hq, rfl⟩
        cases hp : partition? o.budget x with
        | none => rw [hp] at hq; cases hq
        | some ps => rw [hp] at hq; exact ⟨x, ps, rfl, rfl, q, hq, rfl⟩
      · rintro ⟨_, ps, rfl, hp, q, hq, rfl⟩
        exact ⟨q, by rw [hp]; exact hq, rfl⟩

theorem return_not_mem_repairedText {d : Document} {x : Text} (h : repairedText t d = .ok x) : '\r' ∉ x := by
  unfold repairedText at h
  cases hr : readText t d with
  | error e => rw [hr] at h; cases h
  | ok y =>
    rw [hr] at h
    rw [← Except.ok.inj h]
    exact Header.return_not_mem_repair (Project.return_not_mem_of_readText hr)

theorem partition?_of_plan? {d : Document} {x : Text} {ps : List Part} (hx : repairedText t d = .ok x)
    (h : plan? o t d = some ps) : partition? o.budget x = some ps := by
  unfold plan? at h
  split at h
  · rw [hx] at h; exact h
  · cases h

theorem return_not_mem_newFiles (hf : f ∈ newFiles o t p) : '\r' ∉ f.2 := by
  obtain ⟨d, -, x, ps, hx, hp, q, hq, rfl⟩ := mem_newFiles_iff.mp hf
  exact return_not_mem_partText (return_not_mem_repairedText hx) (partition?_of_plan? hx hp) hq

/-- The place of a part is one for a rule document in the same directory. -/
theorem place_of_newFile {dir : Place} (hr : p.rulesPlace? t = some dir) (hf : f ∈ newFiles o t p) :
    ∃ name, (Project.stem? name).isSome = true ∧ f.1 = dir ++ [name] := by
  obtain ⟨d, hd, x, ps, -, -, q, -, rfl⟩ := mem_newFiles_iff.mp hf
  have hl := Project.liesIn_of_mem hr hd
  exact ⟨partName d q, Run.stem?_partName hl q, Run.place_sibling hl _⟩

/-! ## The documents after a run -/

theorem rulesPlace?_settled (h : Settled o t p u) {dir : Place} (hr : p.rulesPlace? t = some dir) :
    p.rulesPlace? u = some dir := by
  obtain ⟨place, hp, hdir, hd⟩ := Project.rulesPlace?_eq_some_iff.mp hr
  refine Project.rulesPlace?_eq_some_iff.mpr ⟨place, hp, hdir, ?_⟩
  rw [← hd]
  refine Tree.isDirectory_congr (h.kept dir ?_ ?_)
  · intro hm
    obtain ⟨f, hf, he⟩ := List.mem_map.mp hm
    obtain ⟨name, -, hn⟩ := place_of_newFile hr hf
    rw [hn] at he
    simpa using congrArg List.length he
  · intro d hm he
    rw [(Project.liesIn_of_mem hr hm).place] at he
    simpa using congrArg List.length he

/-- A document that is left whole and not written over holds its repaired text. -/
theorem readText_settled (h : Settled o t p u) {d : Document} (hd : d ∈ p.modernDocuments t)
    (hp : plan? o t d = none) (hn : d.place ∉ newPlaces o t p) :
    readText u d = repairedText t d ∧ u.isFile d.place = true := by
  cases hm : mended? t d with
  | some x =>
    have hw := h.repaired d hd hp hn x hm
    refine ⟨?_, Tree.isFile_iff.mpr ⟨_, hw⟩⟩
    rw [Project.readText_of_written hw (Run.return_not_mem_mended? hm), repairedText, Run.map_repair_of_mended? hm]
  | none =>
    have hk : u.get? d.place = t.get? d.place :=
      h.kept _ hn fun e he hp' => by rw [eq_of_place_eq hd he hp']; exact ⟨hp, hm⟩
    refine ⟨?_, by rw [Tree.isFile_congr hk]; exact Project.isFile_of_mem hd⟩
    rw [Project.readText_congr hk, repairedText, Run.map_repair_of_not_mended? hm]

theorem not_remains_of_no_documents (h : p.modernDocuments t = []) (y : Text) : ¬ Remains o t p y := by
  rintro (⟨f, hf, -⟩ | ⟨d, hd, -⟩)
  · obtain ⟨d, hd, -⟩ := mem_newFiles_iff.mp hf
    rw [h] at hd; cases hd
  · rw [h] at hd; cases hd

theorem modernDocuments_settled_of_none (h : Settled o t p u) (hr : p.rulesPlace? t = none) :
    p.modernDocuments u = [] := by
  have hdocs := Project.modernDocuments_of_none hr
  have hplaces : newPlaces o t p = [] := by
    refine List.eq_nil_iff_forall_not_mem.mpr fun q hq => ?_
    obtain ⟨f, hf, -⟩ := List.mem_map.mp hq
    exact not_remains_of_no_documents hdocs f.2 (Or.inl ⟨f, hf, rfl⟩)
  have hget : ∀ q, u.get? q = t.get? q := fun q => h.kept q (by simp [hplaces]) (by simp [hdocs])
  rw [← hdocs]
  exact Project.modernDocuments_eq_of_sameShape
    ⟨fun q => Tree.isFile_congr (hget q), fun q => Tree.isDirectory_congr (hget q)⟩ p

/-- A document there is after a run is a part, or was there before and has been left whole. -/
theorem part_or_whole (h : Settled o t p u) {dir : Place} (hr : p.rulesPlace? t = some dir) {e : Document}
    (he : e ∈ p.modernDocuments u) :
    (∃ f ∈ newFiles o t p, u.get? e.place = some (.file (Utf8.encode f.2))) ∨
    (e ∈ p.modernDocuments t ∧ plan? o t e = none ∧ e.place ∉ newPlaces o t p ∧ readText u e = repairedText t e) := by
  obtain ⟨name, hs, hf, rfl⟩ := (Project.mem_modernDocuments (rulesPlace?_settled h hr)).mp he
  by_cases hn : dir ++ [name] ∈ newPlaces o t p
  · obtain ⟨f, hmem, hplace⟩ := List.mem_map.mp hn
    refine Or.inl ⟨f, hmem, ?_⟩
    rw [Project.ruleDocument, ← hplace]
    exact h.part f hmem
  · -- A file under a name of no part has been there before.
    have hfile : t.isFile (dir ++ [name]) = true := by
      by_contra hnf
      rw [← Tree.isFile_congr (h.kept _ hn fun d hd hp => absurd (hp ▸ Project.isFile_of_mem hd) hnf)] at hnf
      exact hnf hf
    have hd := (Project.mem_modernDocuments hr).mpr ⟨name, hs, hfile, rfl⟩
    have hplan : plan? o t (p.ruleDocument dir name) = none := by
      by_contra hsome
      have hgone := h.divided _ hd (Option.isSome_iff_ne_none.mpr hsome) hn
      obtain ⟨bytes, hb⟩ := Tree.isFile_iff.mp hf
      rw [Project.ruleDocument, hb] at hgone
      cases hgone
    exact Or.inr ⟨hd, hplan, hn, (readText_settled h hd hplan hn).1⟩

theorem remains_of_readText (h : Settled o t p u) {dir : Place} (hr : p.rulesPlace? t = some dir) {e : Document}
    (he : e ∈ p.modernDocuments u) {y : Text} (hy : readText u e = .ok y) : Remains o t p y := by
  rcases part_or_whole h hr he with ⟨f, hmem, hw⟩ | ⟨hd, hplan, hn, hread⟩
  · rw [Project.readText_of_written hw (return_not_mem_newFiles hmem)] at hy
    exact Or.inl ⟨f, hmem, Except.ok.inj hy⟩
  · rw [hread] at hy
    exact Or.inr ⟨e, hd, hplan, hn, hy⟩

theorem exists_document_of_remains (h : Settled o t p u) {dir : Place} (hr : p.rulesPlace? t = some dir) {y : Text}
    (hy : Remains o t p y) : ∃ e ∈ p.modernDocuments u, readText u e = .ok y := by
  have hru := rulesPlace?_settled h hr
  rcases hy with ⟨f, hf, rfl⟩ | ⟨d, hd, hplan, hn, hy⟩
  · obtain ⟨name, hs, hplace⟩ := place_of_newFile hr hf
    have hw := h.part f hf
    rw [hplace] at hw
    exact ⟨p.ruleDocument dir name,
      (Project.mem_modernDocuments hru).mpr ⟨name, hs, Tree.isFile_iff.mpr ⟨_, hw⟩, rfl⟩,
      Project.readText_of_written hw (return_not_mem_newFiles hf)⟩
  · obtain ⟨hread, hfile⟩ := readText_settled h hd hplan hn
    obtain ⟨name, hs, -, rfl⟩ := (Project.mem_modernDocuments hr).mp hd
    exact ⟨_, (Project.mem_modernDocuments hru).mpr ⟨name, hs, hfile, rfl⟩, hread.trans hy⟩

theorem mem_documents_after_iff (h : Settled o t p u) {y : Text} :
    (∃ e ∈ p.modernDocuments u, readText u e = .ok y) ↔ Remains o t p y := by
  cases hr : p.rulesPlace? t with
  | none =>
    rw [modernDocuments_settled_of_none h hr]
    simp [not_remains_of_no_documents (Project.modernDocuments_of_none hr)]
  | some dir =>
    constructor
    · rintro ⟨e, he, hy⟩
      exact remains_of_readText h hr he hy
    · exact exists_document_of_remains h hr

/-! ## Lines -/

theorem guidance_repair (x : Text) : guidance (Header.repair x) = guidance x := by
  rw [guidance, Header.body_repair]; rfl

theorem guidance_subset (x : Text) : guidance x ⊆ documentLines x := by
  intro l hl
  obtain ⟨r, hr, rfl⟩ := List.mem_map.mp hl
  exact List.mem_map_of_mem (List.mem_append_right _ (List.mem_of_mem_filter hr))

theorem rows_subset_partText (h : Header) (q : Part) : Text.rows q.body ⊆ Text.rows (partText h q) := by
  unfold partText
  split
  · next fs _ =>
    have hw : Header.written fs ++ q.body =
        (Header.dashes ++ '\n' :: Text.join ['\n'] (fs.map Header.fieldLine) ++ '\n' :: Header.dashes) ++
          '\n' :: q.body := by simp [Header.written]
    rw [hw, Text.rows, Text.rows, Text.fields_append_cons]
    exact List.subset_append_right _ _
  · exact List.Subset.refl _

/-- The guidance of a divided document is in its parts. -/
theorem guidance_in_parts {d : Document} (hd : d ∈ p.modernDocuments t) {x : Text} {ps : List Part}
    (hx : repairedText t d = .ok x) (hp : plan? o t d = some ps) {l : Text} (hl : l ∈ guidance x) :
    ∃ y, Remains o t p y ∧ l ∈ documentLines y := by
  obtain ⟨r, hr, rfl⟩ := List.mem_map.mp hl
  rw [← Partition.inkedRows_chunks o.budget, ← map_body_of_partition? (partition?_of_plan? hx hp),
    List.mem_flatMap] at hr
  obtain ⟨c, hc, hr⟩ := hr
  obtain ⟨q, hq, rfl⟩ := List.mem_map.mp hc
  refine ⟨_, Or.inl ⟨_, mem_newFiles_iff.mpr ⟨d, hd, x, ps, hx, hp, q, hq, rfl⟩, rfl⟩, ?_⟩
  exact List.mem_map_of_mem (List.mem_append_left _ (rows_subset_partText _ q (List.mem_of_mem_filter hr)))

/-- **Guidance survives** a run, every line of every document, if and only if each line of a document
that is left whole and written over stands in some text that remains. -/
theorem guidance_kept_iff {r : Run} (ho : o.trial = false) (h : run o t p = .ok r) :
    (∀ d ∈ p.modernDocuments t, ∀ x, readText t d = .ok x → ∀ l ∈ guidance x,
      ∃ e ∈ p.modernDocuments r.tree, ∃ y, readText r.tree e = .ok y ∧ l ∈ documentLines y) ↔
    ∀ d ∈ p.modernDocuments t, plan? o t d = none → d.place ∈ newPlaces o t p →
      ∀ x, readText t d = .ok x → ∀ l ∈ guidance x, ∃ y, Remains o t p y ∧ l ∈ documentLines y := by
  have hafter : ∀ l : Text, (∃ e ∈ p.modernDocuments r.tree, ∃ y, readText r.tree e = .ok y ∧ l ∈ documentLines y) ↔
      ∃ y, Remains o t p y ∧ l ∈ documentLines y := by
    intro l
    simp only [← mem_documents_after_iff (settled_of_run ho h)]
    constructor
    · rintro ⟨e, he, y, hy, hl⟩; exact ⟨y, ⟨e, he, hy⟩, hl⟩
    · rintro ⟨y, ⟨e, he, hy⟩, hl⟩; exact ⟨e, he, y, hy, hl⟩
  simp only [hafter]
  constructor
  · intro hall d hd _ _ x hx l hl
    exact hall d hd x hx l hl
  · intro hall d hd x hx l hl
    have hrepaired : repairedText t d = .ok (Header.repair x) := by rw [repairedText, hx]; rfl
    have hlr : l ∈ guidance (Header.repair x) := by rw [guidance_repair]; exact hl
    cases hp : plan? o t d with
    | some ps => exact guidance_in_parts hd hrepaired hp hlr
    | none =>
      by_cases hn : d.place ∈ newPlaces o t p
      · exact hall d hd hp hn x hx l hl
      · exact ⟨_, Or.inr ⟨d, hd, hp, hn, hrepaired⟩, guidance_subset _ hlr⟩

end

/-- A document that is written over by a part with the same line. -/
theorem repeated_guidance_survives : ∃ r,
    run { budget := 5 } (clashing "---\na: b\n---\none" "---\na: b\n---\none\n\ntwo") here = .ok r ∧
    ∃ e ∈ here.modernDocuments r.tree, ∃ y, readText r.tree e = .ok y ∧ "one".toList ∈ documentLines y := by
  obtain ⟨r, hrun⟩ := exists_run_clashing 5 "---\na: b\n---\none" "---\na: b\n---\none\n\ntwo" (by decide)
  have hpart : ([".cursor", "rules", "x-part1.mdc"], "---\na: b\n---\none".toList) ∈
      newFiles { budget := 5 } (clashing "---\na: b\n---\none" "---\na: b\n---\none\n\ntwo") here := by
    rw [newFiles_clashing]; decide
  have hwhole : ∀ d ∈ clashingDocuments,
      plan? { budget := 5 } (clashing "---\na: b\n---\none" "---\na: b\n---\none\n\ntwo") d = none →
      readText (clashing "---\na: b\n---\none" "---\na: b\n---\none\n\ntwo") d =
        .ok "---\na: b\n---\none".toList := by decide
  refine ⟨r, hrun, (guidance_kept_iff rfl hrun).mpr ?_ (here.ruleDocument Project.rulesNames "x-part1.mdc") ?_
    "---\na: b\n---\none".toList (by decide) _ (by decide)⟩
  · rw [modernDocuments_clashing]
    intro d hd hp _ x hx l hl
    rw [hwhole d hd hp] at hx
    rw [← Except.ok.inj hx] at hl
    exact ⟨_, Or.inl ⟨_, hpart, rfl⟩, guidance_subset _ hl⟩
  · rw [modernDocuments_clashing]; decide

/-- A document with a line of its own is lost under the name of a part. -/
theorem clashing_name_loses_guidance : ∃ r,
    run { budget := 8 } (clashing "---\nalwaysApply: true\n---\nkeep me\n"
      "---\nalwaysApply: true\n---\nfirst\n\nsecond\n") here = .ok r ∧
    ∃ d ∈ here.modernDocuments (clashing "---\nalwaysApply: true\n---\nkeep me\n"
      "---\nalwaysApply: true\n---\nfirst\n\nsecond\n"),
    ∃ x, readText (clashing "---\nalwaysApply: true\n---\nkeep me\n"
      "---\nalwaysApply: true\n---\nfirst\n\nsecond\n") d = .ok x ∧ "keep me".toList ∈ guidance x ∧
    ∀ e ∈ here.modernDocuments r.tree, ∀ y, readText r.tree e = .ok y → "keep me".toList ∉ documentLines y := by
  obtain ⟨r, hrun⟩ := exists_run_clashing 8 "---\nalwaysApply: true\n---\nkeep me\n"
    "---\nalwaysApply: true\n---\nfirst\n\nsecond\n" (by decide)
  refine ⟨r, hrun, here.ruleDocument Project.rulesNames "x-part1.mdc", by rw [modernDocuments_clashing]; decide,
    "---\nalwaysApply: true\n---\nkeep me\n".toList, by decide, by decide, ?_⟩
  intro e he y hy
  rcases (mem_documents_after_iff (settled_of_run rfl hrun)).mp ⟨e, he, hy⟩ with ⟨f, hf, rfl⟩ | ⟨d, hd, hp, hn, -⟩
  · rw [newFiles_clashing] at hf
    clear hy
    revert f
    decide
  · rw [modernDocuments_clashing] at hd
    rw [newPlaces, newFiles_clashing] at hn
    refine absurd ?_ hn
    clear hn
    revert d
    decide

end AgentRules.Mending
