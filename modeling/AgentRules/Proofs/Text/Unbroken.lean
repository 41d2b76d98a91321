import Mathlib
import AgentRules.Proofs.Text.Pieces
import AgentRules.Proofs.Text.Trim

/-!
# Unbroken texts

A text without line boundaries is one line. The lines of a text are unbroken, and texts that are
unbroken and not empty come back as the lines of what they are joined to. A file that has been read
has no carriage returns, and such a text is read as it was written.
-/

namespace AgentRules.Text

/-- No character ends a line. -/
def Unbroken (t : Text) : Prop := ∀ c ∈ t, isBoundary c = false

instance (t : Text) : Decidable (Unbroken t) := List.decidableBAll (isBoundary · = false) t

theorem Unbroken.nil : Unbroken [] := fun _ h => absurd h List.not_mem_nil

theorem Unbroken.subset {a b : Text} (hb : Unbroken b) (h : a ⊆ b) : Unbroken a := fun c hc => hb c (h hc)

theorem unbroken_cons {c : Char} {t : Text} : Unbroken (c :: t) ↔ isBoundary c = false ∧ Unbroken t := by
  simp [Unbroken]

theorem unbroken_append {a b : Text} : Unbroken (a ++ b) ↔ Unbroken a ∧ Unbroken b := by
  simp [Unbroken, or_imp, forall_and]

theorem Unbroken.not_mem {t : Text} (h : Unbroken t) {c : Char} (hc : isBoundary c = true) : c ∉ t :=
  fun hm => by rw [h c hm] at hc; cases hc

theorem Unbroken.join {m : Text} {ts : List Text} (hm : Unbroken m) (h : ∀ t ∈ ts, Unbroken t) :
    Unbroken (join m ts) := by
  intro c hc
  rcases mem_join hc with hc | ⟨t, ht, hc⟩
  · exact hm c hc
  · exact h t ht c hc

/-! ## Lines -/

theorem lines_append_newline {a : Text} (h : Unbroken a) (r : Text) : lines (a ++ '\n' :: r) = a :: lines r := by
  induction a with
  | nil => rw [List.nil_append, lines.eq_3 _ _ (fun _ h => by cases h)]; rfl
  | cons c a ih =>
    rw [unbroken_cons] at h
    have hc : ∀ b, ¬ (c = '\r' ∧ a ++ '\n' :: r = '\n' :: b) := by
      rintro b ⟨rfl, -⟩; exact absurd h.1 (by decide)
    rw [List.cons_append, lines.eq_3 _ _ (fun b h₁ h₂ => hc b ⟨h₁, h₂⟩), ih h.2]
    simp [h.1, push]

theorem lines_of_unbroken {a : Text} (h : Unbroken a) (ha : a ≠ []) : lines a = [a] := by
  induction a with
  | nil => exact absurd rfl ha
  | cons c a ih =>
    rw [unbroken_cons] at h
    have hc : ∀ b, ¬ (c = '\r' ∧ a = '\n' :: b) := by
      rintro b ⟨rfl, -⟩; exact absurd h.1 (by decide)
    rw [lines.eq_3 _ _ (fun b h₁ h₂ => hc b ⟨h₁, h₂⟩)]
    cases a with
    | nil => simp [h.1, lines, push]
    | cons d a => rw [ih h.2 (by simp)]; simp [h.1, push]

theorem lines_join : ∀ {ls : List Text}, (∀ l ∈ ls, Unbroken l ∧ l ≠ []) → lines (join ['\n'] ls) = ls
  | [], _ => rfl
  | [l], h => lines_of_unbroken (h l (by simp)).1 (h l (by simp)).2
  | l :: k :: ls, h => by
    rw [join_cons_cons, lines_append_newline (h l (by simp)).1,
      lines_join fun m hm => h m (List.mem_cons_of_mem _ hm)]

theorem unbroken_push {c : Char} (hc : isBoundary c = false) {ls : List Text} (h : ∀ l ∈ ls, Unbroken l) :
    ∀ l ∈ push c ls, Unbroken l := by
  cases ls with
  | nil => simp [push, Unbroken, hc]
  | cons k ls =>
    intro l hl
    rcases List.mem_cons.mp hl with rfl | hl
    · exact unbroken_cons.mpr ⟨hc, h k (by simp)⟩
    · exact h l (List.mem_cons_of_mem _ hl)

theorem unbroken_of_mem_lines (t : Text) : ∀ l ∈ lines t, Unbroken l := by
  induction t using lines.induct with
  | case1 => simp [lines]
  | case2 r ih => simpa [lines, Unbroken.nil] using ih
  | case3 c r hr hc ih => rw [lines.eq_3 _ _ hr]; simpa [hc, Unbroken.nil] using ih
  | case4 c r hr hc ih =>
    rw [lines.eq_3 _ _ hr]
    simp only [hc, Bool.false_eq_true, ite_false]
    exact unbroken_push (by simpa using hc) ih

/-! ## Line ends -/

theorem unifyLineEnds_eq_self {t : Text} (h : '\r' ∉ t) : unifyLineEnds t = t := by
  induction t with
  | nil => rfl
  | cons c t ih =>
    rw [List.mem_cons, not_or] at h
    rw [unifyLineEnds.eq_3 _ _ (fun _ hc => absurd hc.symm h.1), ih h.2, if_neg (Ne.symm h.1)]

theorem return_not_mem_unifyLineEnds (t : Text) : '\r' ∉ unifyLineEnds t := by
  induction t using unifyLineEnds.induct with
  | case1 => simp [unifyLineEnds]
  | case2 r ih => simpa [unifyLineEnds] using ih
  | case3 c r hr ih =>
    rw [unifyLineEnds.eq_3 _ _ hr]
    by_cases hc : c = '\r'
    · simpa [hc] using ih
    · simpa [hc, eq_comm] using ih

end AgentRules.Text
