import Mathlib
import AgentRules.Partition
import AgentRules.Proofs.Text.Pieces
import AgentRules.Proofs.Text.Trim

/-!
# What the parts of a document hold

Cuts are made at the start of a line or at a run of line feeds, and pieces are put together with
line feeds between them, so the rows that are not blank come through in their order. Everything
about them follows from `inkedRows_append_newline`. Main statement: `inkedRows_chunks`.
-/

namespace AgentRules

/-! ## Rows that are not blank -/

namespace Text

def inkedRows (t : Text) : List Text := (rows t).filter (!allBlank ·)

theorem inkedRows_append_newline (a b : Text) : inkedRows (a ++ '\n' :: b) = inkedRows a ++ inkedRows b := by
  rw [inkedRows, rows, fields_append_cons, List.filter_append]; rfl

@[simp] theorem inkedRows_nil : inkedRows [] = [] := rfl

@[simp] theorem inkedRows_cons_newline (t : Text) : inkedRows ('\n' :: t) = inkedRows t :=
  inkedRows_append_newline [] t

theorem inkedRows_of_allBlank {t : Text} (h : allBlank t = true) : inkedRows t = [] := by
  rw [inkedRows, List.filter_eq_nil_iff]
  intro r hr
  simp [allBlank_of_isInfix (infix_of_mem_fields hr) h]

theorem flatMap_inkedRows_filter (ts : List Text) :
    (ts.filter (!allBlank ·)).flatMap inkedRows = ts.flatMap inkedRows := by
  induction ts with
  | nil => rfl
  | cons t ts ih =>
    cases h : allBlank t with
    | true => rw [List.filter_cons_of_neg (by simp [h]), ih, List.flatMap_cons, inkedRows_of_allBlank h]; rfl
    | false => rw [List.filter_cons_of_pos (by simp [h]), List.flatMap_cons, List.flatMap_cons, ih]

/-- Putting texts together with line feeds between them. -/
theorem inkedRows_join {m : Text} (hm : ∀ a b, inkedRows (a ++ m ++ b) = inkedRows a ++ inkedRows b) :
    ∀ ts : List Text, inkedRows (join m ts) = ts.flatMap inkedRows
  | [] => rfl
  | [t] => by simp [join]
  | t :: u :: ts => by
    rw [join_cons _ (by simp), hm, inkedRows_join hm (u :: ts)]; rfl

theorem inkedRows_join_newline (ts : List Text) : inkedRows (join ['\n'] ts) = ts.flatMap inkedRows := by
  refine inkedRows_join (fun a b => ?_) ts
  rw [List.append_assoc]
  exact inkedRows_append_newline a b

theorem inkedRows_join_gap (ts : List Text) : inkedRows (join ['\n', '\n'] ts) = ts.flatMap inkedRows := by
  refine inkedRows_join (fun a b => ?_) ts
  rw [List.append_assoc, List.cons_append, inkedRows_append_newline]
  exact congrArg _ (inkedRows_cons_newline b)

end Text

namespace Partition

open Text (inkedRows)

/-! ## Cuts -/

/-- Puts a text at the front of the first piece. -/
def prepend (a : Text) : List Text → List Text
  | [] => [a]
  | l :: ls => (a ++ l) :: ls

theorem push_eq_prepend (c : Char) (ls : List Text) : Text.push c ls = prepend [c] ls := by
  cases ls <;> rfl

theorem prepend_push (a : Text) (c : Char) (ls : List Text) :
    prepend a (Text.push c ls) = prepend (a ++ [c]) ls := by
  cases ls <;> simp [prepend, Text.push]

theorem prepend_nil {ls : List Text} (h : ls ≠ []) : prepend [] ls = ls := by
  cases ls with
  | nil => exact absurd rfl h
  | cons l ls => rfl

theorem cutSections_ne_nil (start : Bool) (t : Text) : cutSections start t ≠ [] := by
  cases t with
  | nil => simp [cutSections]
  | cons c r =>
    simp only [cutSections]
    split
    · simp
    · exact Text.push_ne_nil _ _

/-- Cutting before lines. The text before ends a line if the flag says that one starts. -/
theorem inkedRows_cutSections (t : Text) : ∀ (start : Bool) (a : Text),
    (start = true → a = [] ∨ a.getLast? = some '\n') →
    (prepend a (cutSections start t)).flatMap inkedRows = inkedRows (a ++ t) := by
  induction t with
  | nil => intro start a _; simp [cutSections, prepend]
  | cons c r ih =>
    intro start a ha
    have hline : ∀ b : Text, decide (c = '\n') = true → b ++ [c] = [] ∨ (b ++ [c]).getLast? = some '\n' := by
      intro b hc
      rw [of_decide_eq_true hc]
      exact Or.inr List.getLast?_concat
    rw [cutSections]
    split
    · next hcut =>
      have hrest := ih (decide (c = '\n')) [c] (hline [])
      have hend : inkedRows (a ++ c :: r) = inkedRows a ++ inkedRows (c :: r) := by
        rcases ha (by simp at hcut; exact hcut.1) with rfl | hl
        · rfl
        · rw [← List.dropLast_append_getLast? '\n' hl, List.append_assoc, List.singleton_append,
            Text.inkedRows_append_newline, Text.inkedRows_append_newline, Text.inkedRows_nil, List.append_nil]
      rw [prepend, List.append_nil, List.flatMap_cons, push_eq_prepend, hrest, hend]
      rfl
    · rw [prepend_push, ih _ _ (hline a), List.append_assoc, List.singleton_append]

theorem inkedRows_sections (body : Text) : (sections body).flatMap inkedRows = inkedRows body := by
  rw [sections, Text.flatMap_inkedRows_filter]
  have h := inkedRows_cutSections body true [] fun _ => Or.inl rfl
  rwa [prepend_nil (cutSections_ne_nil _ _)] at h

theorem cutParagraphs_ne_nil (t : Text) : ∀ run : Bool, cutParagraphs run t ≠ [] := by
  induction t with
  | nil => intro run; simp [cutParagraphs]
  | cons c r ih =>
    intro run
    unfold cutParagraphs
    split
    · simp
    · split
      · simp
      · exact Text.push_ne_nil _ _
    · next h => exact (List.cons.inj h).2 ▸ ih true
    · exact Text.push_ne_nil _ _

theorem cutParagraphs_cons {c : Char} (h : c ≠ '\n') (run : Bool) (r : Text) :
    cutParagraphs run (c :: r) = Text.push c (cutParagraphs false r) := by
  rw [cutParagraphs.eq_4]
  · rintro - rfl; exact h rfl
  · rintro - rfl; exact h rfl

/-- Cutting at runs of line feeds, before a run and within one. -/
theorem inkedRows_cutParagraphs (t : Text) :
    (∀ a, (prepend a (cutParagraphs false t)).flatMap inkedRows = inkedRows (a ++ t)) ∧
      (cutParagraphs true t).flatMap inkedRows = inkedRows t := by
  induction t with
  | nil => exact ⟨fun a => by simp [cutParagraphs, prepend], rfl⟩
  | cons c r ih =>
    obtain ⟨ihf, iht⟩ := ih
    by_cases hc : c = '\n'
    · subst hc
      constructor
      · intro a
        rw [cutParagraphs]
        split
        · rw [prepend, List.append_nil, List.flatMap_cons, iht, Text.inkedRows_append_newline]
        · rw [prepend_push, ihf, List.append_assoc]; rfl
      · rw [cutParagraphs, iht, Text.inkedRows_cons_newline]
    · constructor
      · intro a
        rw [cutParagraphs_cons hc, prepend_push, ihf, List.append_assoc]; rfl
      · rw [cutParagraphs_cons hc, push_eq_prepend, ihf]; rfl

theorem inkedRows_paragraphs (body : Text) : (paragraphs body).flatMap inkedRows = inkedRows body := by
  rw [paragraphs, Text.flatMap_inkedRows_filter]
  have h := (inkedRows_cutParagraphs body).1 []
  rwa [prepend_nil (cutParagraphs_ne_nil _ _)] at h

/-! ## Groups -/

/-- Packing keeps the sections in their order. -/
theorem flatten_pack (budget : Int) (ss : List Text) : ∀ (group : List Text) (weight : Nat),
    (pack budget group weight ss).flatten = group.reverse ++ ss := by
  induction ss with
  | nil =>
    intro group weight
    cases group with
    | nil => rfl
    | cons g gs => simp [pack]
  | cons s ss ih =>
    intro group weight
    rw [pack]
    split
    · rw [List.flatten_cons, ih]; rfl
    · rw [ih, List.reverse_cons, List.append_assoc]; rfl

theorem flatten_halves (ps : List Text) : (halves ps).flatten = ps := by
  simp [halves]

/-- The sections or the paragraphs of a body in groups, and what stands between them in a part. -/
theorem exists_groups (budget : Int) (body : Text) : ∃ (m : Text) (gs : List (List Text)),
    chunks budget body = (gs.map (Text.join m)).filter (!Text.allBlank ·) ∧
    (m = ['\n'] ∧ gs.flatten = sections body ∨ m = ['\n', '\n'] ∧ gs.flatten = paragraphs body) := by
  unfold chunks
  simp only
  split
  · exact ⟨_, _, rfl, Or.inr ⟨rfl, flatten_halves _⟩⟩
  · exact ⟨_, _, rfl, Or.inl ⟨rfl, flatten_pack budget _ [] 0⟩⟩

/-- **Dividing loses no row.** The rows of a body that are not blank are those of its parts. -/
theorem inkedRows_chunks (budget : Int) (body : Text) : (chunks budget body).flatMap inkedRows = inkedRows body := by
  have hflat : ∀ {m : Text}, (∀ ts, inkedRows (Text.join m ts) = ts.flatMap inkedRows) →
      ∀ gs : List (List Text), (gs.map (Text.join m)).flatMap inkedRows = gs.flatten.flatMap inkedRows := by
    intro m hm gs
    induction gs with
    | nil => rfl
    | cons g gs ih => rw [List.map_cons, List.flatMap_cons, ih, hm, List.flatten_cons, List.flatMap_append]
  obtain ⟨m, gs, hc, ⟨rfl, hg⟩ | ⟨rfl, hg⟩⟩ := exists_groups budget body
  · rw [hc, Text.flatMap_inkedRows_filter, hflat Text.inkedRows_join_newline, hg, inkedRows_sections]
  · rw [hc, Text.flatMap_inkedRows_filter, hflat Text.inkedRows_join_gap, hg, inkedRows_paragraphs]

/-! ## Characters -/

theorem mem_prepend {a l : Text} {c : Char} {ls : List Text} (h : l ∈ prepend a ls) (hc : c ∈ l) :
    c ∈ a ∨ ∃ k ∈ ls, c ∈ k := by
  cases ls with
  | nil => rw [prepend, List.mem_singleton] at h; exact Or.inl (h ▸ hc)
  | cons k ls =>
    rcases List.mem_cons.mp h with rfl | h
    · rcases List.mem_append.mp hc with hc | hc
      · exact Or.inl hc
      · exact Or.inr ⟨k, List.mem_cons_self, hc⟩
    · exact Or.inr ⟨l, List.mem_cons_of_mem k h, hc⟩

theorem mem_push {l : Text} {c d : Char} {ls : List Text} (h : l ∈ Text.push d ls) (hc : c ∈ l) :
    c = d ∨ ∃ k ∈ ls, c ∈ k := by
  rw [push_eq_prepend] at h
  simpa using mem_prepend h hc

theorem mem_of_mem_cutSections {c : Char} {t : Text} : ∀ {start : Bool} {l : Text}, l ∈ cutSections start t →
    c ∈ l → c ∈ t := by
  induction t with
  | nil => intro start l h hc; simp [cutSections] at h; simp [h] at hc
  | cons d r ih =>
    intro start l h hc
    have hpush : ∀ {l : Text}, l ∈ Text.push d (cutSections (decide (d = '\n')) r) → c ∈ l → c ∈ d :: r := by
      intro l h hc
      rcases mem_push h hc with rfl | ⟨k, hk, hc⟩
      · exact List.mem_cons_self
      · exact List.mem_cons_of_mem d (ih hk hc)
    rw [cutSections] at h
    split at h
    · rcases List.mem_cons.mp h with rfl | h
      · cases hc
      · exact hpush h hc
    · exact hpush h hc

theorem mem_of_mem_cutParagraphs {c : Char} {t : Text} : ∀ {run : Bool} {l : Text}, l ∈ cutParagraphs run t →
    c ∈ l → c ∈ t := by
  induction t with
  | nil => intro run l h hc; simp [cutParagraphs] at h; simp [h] at hc
  | cons d r ih =>
    intro run l h hc
    have hpush : l ∈ Text.push d (cutParagraphs false r) → c ∈ d :: r := by
      intro h
      rcases mem_push h hc with rfl | ⟨k, hk, hc⟩
      · exact List.mem_cons_self
      · exact List.mem_cons_of_mem d (ih hk hc)
    by_cases hd : d = '\n'
    · subst hd
      cases run with
      | true => exact List.mem_cons_of_mem _ (ih (by rwa [cutParagraphs] at h) hc)
      | false =>
        rw [cutParagraphs] at h
        split at h
        · rcases List.mem_cons.mp h with rfl | h
          · cases hc
          · exact List.mem_cons_of_mem _ (ih h hc)
        · exact hpush h
    · rw [cutParagraphs_cons hd] at h
      exact hpush h

/-- The parts of a body have no characters but its own and line feeds. -/
theorem mem_of_mem_chunks {budget : Int} {body l : Text} {c : Char} (h : l ∈ chunks budget body) (hc : c ∈ l) :
    c ∈ body ∨ c = '\n' := by
  obtain ⟨m, gs, hgs, hm⟩ := exists_groups budget body
  rw [hgs, List.mem_filter, List.mem_map] at h
  obtain ⟨⟨g, hg, rfl⟩, -⟩ := h
  rcases Text.mem_join hc with hc | ⟨s, hs, hc⟩
  · rcases hm with ⟨rfl, -⟩ | ⟨rfl, -⟩
    · exact Or.inr (by simpa using hc)
    · exact Or.inr (by simpa using hc)
  · have hs : s ∈ gs.flatten := List.mem_flatten.mpr ⟨g, hg, hs⟩
    rcases hm with ⟨-, hf⟩ | ⟨-, hf⟩
    · rw [hf, sections] at hs
      exact Or.inl (mem_of_mem_cutSections (List.mem_of_mem_filter hs) hc)
    · rw [hf, paragraphs] at hs
      exact Or.inl (mem_of_mem_cutParagraphs (List.mem_of_mem_filter hs) hc)

/-! ## Numbers -/

theorem map_body_number (cs : List Text) : ∀ n, (number n cs).map (·.body) = cs := by
  induction cs with
  | nil => intro n; rfl
  | cons c cs ih => intro n; rw [number, List.map_cons, ih]

theorem map_number_number (cs : List Text) : ∀ n, (number n cs).map (·.number) = List.range' n cs.length := by
  induction cs with
  | nil => intro n; rfl
  | cons c cs ih => intro n; rw [number, List.map_cons, ih, List.length_cons, List.range'_succ]

end Partition

/-- **Plans.** A plan numbers the pieces of the body from one; there are at least two. -/
theorem partition?_eq_some_iff {budget : Int} {t : Text} {ps : List Part} : partition? budget t = some ps ↔
    budget < tokens t ∧ 2 ≤ (Partition.chunks budget (Header.body t)).length ∧
      ps = Partition.number 1 (Partition.chunks budget (Header.body t)) := by
  unfold partition?
  simp only
  split
  · next h => simp [not_lt.mpr h]
  · next h =>
    split
    · next hl => simp [not_le.mpr hl]
    · next hl => simp [not_le.mp h, not_lt.mp hl, eq_comm]

theorem map_body_of_partition? {budget : Int} {t : Text} {ps : List Part} (h : partition? budget t = some ps) :
    ps.map (·.body) = Partition.chunks budget (Header.body t) := by
  rw [(partition?_eq_some_iff.mp h).2.2, Partition.map_body_number]

theorem exists_part {budget : Int} {t : Text} {ps : List Part} (h : partition? budget t = some ps) : ∃ q, q ∈ ps := by
  have hlen := (partition?_eq_some_iff.mp h).2.1
  rw [← map_body_of_partition? h, List.length_map] at hlen
  exact List.exists_mem_of_length_pos (by omega)

end AgentRules
