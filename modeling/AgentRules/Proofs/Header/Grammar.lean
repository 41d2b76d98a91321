import Mathlib
import AgentRules.Header.Written
import AgentRules.Proofs.Text.Pieces

/-!
# The header grammar

A block is closed by the first line feed with three dashes after it. Main statements: the cut at
the first close is the decomposition of the text whose block has no close in it
(`cutBlock?_eq_some_iff`, `cut?_eq_some_iff`).
-/

namespace AgentRules

/-- A pattern that occurs in a text has a first occurrence. -/
theorem Text.first_occurrence {p : Text} (hp : p ≠ []) {t : Text} (h : p <:+: t) :
    ∃ b r, t = b ++ p ++ r ∧ ¬ p <:+: b := by
  induction t with
  | nil => exact absurd (List.infix_nil.mp h) hp
  | cons c t ih =>
    by_cases hpre : p <+: c :: t
    · obtain ⟨r, hr⟩ := hpre
      exact ⟨[], r, by simp [hr], by simpa using hp⟩
    · have ht : p <:+: t := (List.infix_cons_iff.mp h).resolve_left hpre
      obtain ⟨b, r, rfl, hb⟩ := ih ht
      refine ⟨c :: b, r, rfl, fun hi => ?_⟩
      rcases List.infix_cons_iff.mp hi with hi | hi
      · exact hpre (hi.trans ⟨p ++ r, by simp⟩)
      · exact hb hi

namespace Header

def closing : Text := '\n' :: dashes

/-- A block without the carriage return that belongs to the line end after it. -/
def withoutReturn (t : Text) : Text := if t.getLast? = some '\r' then t.dropLast else t

theorem newline_not_mem_dashes : '\n' ∉ dashes := by decide

theorem withoutReturn_of_not_mem {t : Text} (h : '\r' ∉ t) : withoutReturn t = t :=
  if_neg fun hl => h (List.mem_of_getLast? hl)

theorem withoutReturn_cons {c : Char} {t : Text} (h : ¬ (c = '\r' ∧ t = [])) :
    withoutReturn (c :: t) = c :: withoutReturn t := by
  cases t with
  | nil => simpa [withoutReturn] using h
  | cons d t =>
    simp only [withoutReturn, List.getLast?_cons_cons]
    split
    · rw [List.dropLast_cons_of_ne_nil (by simp)]
    · rfl

theorem afterClose?_eq_some_iff {t rest : Text} :
    afterClose? t = some rest ↔ t = closing ++ rest ∨ t = '\r' :: closing ++ rest := by
  unfold afterClose? Text.afterLineEnd?
  constructor
  · intro h
    split at h
    · rw [Option.bind_some, List.isPrefixOf?_eq_some_iff_append_eq] at h
      left; rw [← h]; rfl
    · rw [Option.bind_some, List.isPrefixOf?_eq_some_iff_append_eq] at h
      right; rw [← h]; rfl
    · cases h
  · rintro (rfl | rfl)
    · exact List.isPrefixOf?_eq_some_iff_append_eq.mpr rfl
    · exact List.isPrefixOf?_eq_some_iff_append_eq.mpr rfl

theorem closing_prefix_append {b rest : Text} : closing <+: b ++ closing ++ rest ↔ b = [] ∨ closing <+: b := by
  cases b with
  | nil => simp
  | cons c b =>
    rw [closing, List.append_assoc, List.cons_append, List.cons_prefix_cons, List.cons_append,
      Text.prefix_append_cons newline_not_mem_dashes, List.cons_prefix_cons]
    simp

theorem cutBlock?_append {b : Text} (hb : ¬ closing <:+: b) (rest : Text) :
    cutBlock? (b ++ closing ++ rest) = some (withoutReturn b, rest) := by
  induction b with
  | nil => rfl
  | cons c b ih =>
    rw [List.infix_cons_iff, not_or] at hb
    by_cases hr : c = '\r' ∧ b = []
    · obtain ⟨rfl, rfl⟩ := hr; rfl
    · have hn : afterClose? (c :: (b ++ closing ++ rest)) = none := by
        refine Option.eq_none_iff_forall_ne_some.mpr fun r h => ?_
        rcases afterClose?_eq_some_iff.mp h with h | h
        · have hp : closing <+: c :: b ++ closing ++ rest := ⟨r, h.symm⟩
          rcases closing_prefix_append.mp hp with hp | hp
          · cases hp
          · exact hb.1 hp
        · rw [List.cons_append, List.cons.injEq] at h
          have hp : closing <+: b ++ closing ++ rest := ⟨r, h.2.symm⟩
          rcases closing_prefix_append.mp hp with hp | hp
          · exact hr ⟨h.1, hp⟩
          · exact hb.2 hp.isInfix
      rw [List.cons_append, List.cons_append, cutBlock?, hn, ih hb.2, withoutReturn_cons hr]
      rfl

theorem cutBlock?_eq_none {t : Text} (h : ¬ closing <:+: t) : cutBlock? t = none := by
  induction t with
  | nil => rfl
  | cons c t ih =>
    rw [List.infix_cons_iff, not_or] at h
    have hn : afterClose? (c :: t) = none := by
      refine Option.eq_none_iff_forall_ne_some.mpr fun r hr => ?_
      rcases afterClose?_eq_some_iff.mp hr with hr | hr
      · exact h.1 ⟨r, hr.symm⟩
      · rw [List.cons_append, List.cons.injEq] at hr
        exact h.2 (List.IsPrefix.isInfix ⟨r, hr.2.symm⟩)
    rw [cutBlock?, hn, ih h.2]
    rfl

theorem cutBlock?_eq_some_iff {t block rest : Text} : cutBlock? t = some (block, rest) ↔
    ∃ b, t = b ++ closing ++ rest ∧ ¬ closing <:+: b ∧ block = withoutReturn b := by
  constructor
  · intro h
    have hi : closing <:+: t := by
      by_contra hi; rw [cutBlock?_eq_none hi] at h; cases h
    obtain ⟨b, r, rfl, hb⟩ := Text.first_occurrence (by decide) hi
    rw [cutBlock?_append hb, Option.some.injEq, Prod.mk.injEq] at h
    obtain ⟨rfl, rfl⟩ := h
    exact ⟨b, rfl, hb, rfl⟩
  · rintro ⟨b, rfl, hb, rfl⟩
    exact cutBlock?_append hb rest

theorem cut?_dashes_newline (t : Text) : cut? (dashes ++ '\n' :: t) = cutBlock? t := rfl

theorem cut?_eq_some_iff {t block rest : Text} : cut? t = some (block, rest) ↔
    ∃ e b, (e = ['\n'] ∨ e = ['\r', '\n']) ∧ t = dashes ++ e ++ b ++ closing ++ rest ∧
      ¬ closing <:+: b ∧ block = withoutReturn b := by
  constructor
  · intro h
    unfold cut? Text.afterLineEnd? at h
    split at h
    · split at h
      · obtain ⟨b, rfl, hb, rfl⟩ := cutBlock?_eq_some_iff.mp h
        exact ⟨['\n'], b, Or.inl rfl, by simp [dashes], hb, rfl⟩
      · obtain ⟨b, rfl, hb, rfl⟩ := cutBlock?_eq_some_iff.mp h
        exact ⟨['\r', '\n'], b, Or.inr rfl, by simp [dashes], hb, rfl⟩
      · cases h
    · cases h
  · rintro ⟨e, b, rfl | rfl, rfl, hb, rfl⟩
    · simp only [List.append_assoc]
      exact cutBlock?_eq_some_iff.mpr ⟨b, by simp, hb, rfl⟩
    · simp only [List.append_assoc]
      exact cutBlock?_eq_some_iff.mpr ⟨b, by simp, hb, rfl⟩

/-- What closes a block stands at the start of a row that is not the first. -/
theorem closing_infix_iff (t : Text) : closing <:+: t ↔ ∃ r ∈ (Text.rows t).tail, dashes <+: r :=
  Text.infix_newline_iff newline_not_mem_dashes t

theorem body_of_cut?_none {t : Text} (h : cut? t = none) : body t = t := by rw [body, h]

theorem body_of_cut? {t block rest : Text} (h : cut? t = some (block, rest)) :
    body t = (Text.afterLineEnd? rest).getD rest := by rw [body, h]

theorem body_suffix (t : Text) : body t <:+ t := by
  cases h : cut? t with
  | none => rw [body_of_cut?_none h]
  | some p =>
    obtain ⟨block, rest⟩ := p
    have hr : rest <:+ t := by
      obtain ⟨e, b, -, rfl, -⟩ := cut?_eq_some_iff.mp h
      exact List.suffix_append _ _
    rw [body_of_cut? h]
    unfold Text.afterLineEnd?
    split
    · exact (List.suffix_cons _ _).trans hr
    · exact ((List.suffix_cons _ _).trans (List.suffix_cons _ _)).trans hr
    · exact hr

end Header
end AgentRules
