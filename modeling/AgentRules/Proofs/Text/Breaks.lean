import Mathlib
import AgentRules.Proofs.Text.Trim
import AgentRules.Proofs.Text.Unbroken

/-!
# Plain line breaks

A text has plain breaks if it has no line boundaries but line feeds, which may have a carriage
return before them. Such a text can be cut at any character that is no line feed, and trimming
leaves it plain. Rows that are changed one by one keep it plain if each of them does.
-/

namespace AgentRules.Text

/-- Every line boundary is a line feed, or a carriage return with a line feed after it. -/
def PlainBreaks : Text → Prop
  | [] => True
  | c :: r => (isBoundary c = true → c = '\n' ∨ c = '\r' ∧ r.head? = some '\n') ∧ PlainBreaks r

instance decidablePlainBreaks : (t : Text) → Decidable (PlainBreaks t)
  | [] => inferInstanceAs (Decidable True)
  | _ :: r =>
    have := decidablePlainBreaks r
    inferInstanceAs (Decidable (_ ∧ _))

/-- Every line boundary is a line feed. -/
def OnlyLineFeeds (t : Text) : Prop := ∀ c ∈ t, isBoundary c = true → c = '\n'

instance decidableOnlyLineFeeds (t : Text) : Decidable (OnlyLineFeeds t) := List.decidableBAll _ t

theorem OnlyLineFeeds.plainBreaks {t : Text} (h : OnlyLineFeeds t) : PlainBreaks t := by
  induction t with
  | nil => trivial
  | cons c t ih =>
    exact ⟨fun hc => Or.inl (h c List.mem_cons_self hc), ih fun d hd => h d (List.mem_cons_of_mem c hd)⟩

theorem OnlyLineFeeds.return_not_mem {t : Text} (h : OnlyLineFeeds t) : '\r' ∉ t :=
  fun hm => absurd (h _ hm (by decide)) (by decide)

theorem isBlank_of_isBoundary {c : Char} (h : isBoundary c = true) : isBlank c = true := by
  simp only [isBoundary, isBlank, Bool.or_eq_true, Bool.and_eq_true, decide_eq_true_eq, beq_iff_eq] at h ⊢
  omega

theorem isBoundary_of_ink {c : Char} (h : isBlank c = false) : isBoundary c = false := by
  by_contra hb
  rw [isBlank_of_isBoundary (by simpa using hb)] at h
  cases h

/-! ## Cutting -/

section
variable {a b : Text} {x : Char}

theorem plainBreaks_cons (hx : isBoundary x = false) : PlainBreaks (x :: b) ↔ PlainBreaks b := by
  simp [PlainBreaks, hx]

theorem plainBreaks_append_cons (hx : x ≠ '\n') : PlainBreaks (a ++ x :: b) ↔ PlainBreaks a ∧ PlainBreaks (x :: b) := by
  induction a with
  | nil => simp [PlainBreaks]
  | cons c a ih =>
    -- The character after `c` is no line feed if `c` is the last one.
    have hhead : (a ++ x :: b).head? = some '\n' ↔ a.head? = some '\n' := by
      cases a with
      | nil => simp [hx]
      | cons d a => simp
    simp only [List.cons_append, PlainBreaks, ih, hhead, and_assoc]

theorem plainBreaks_append_newline : PlainBreaks (a ++ '\n' :: b) ↔ PlainBreaks (a ++ ['\n']) ∧ PlainBreaks b := by
  induction a with
  | nil => simp [PlainBreaks]
  | cons c a ih =>
    have hhead : (a ++ '\n' :: b).head? = (a ++ ['\n']).head? := by cases a <;> rfl
    simp only [List.cons_append, PlainBreaks, ih, hhead, and_assoc]

theorem PlainBreaks.append_right (h : PlainBreaks (a ++ b)) : PlainBreaks b := by
  induction a with
  | nil => exact h
  | cons c a ih => exact ih h.2

theorem plainBreaks_append_ink (hx : isBlank x = false) :
    PlainBreaks (a ++ x :: b) ↔ PlainBreaks a ∧ PlainBreaks b := by
  rw [plainBreaks_append_cons fun e => by rw [e] at hx; exact absurd hx (by decide),
    plainBreaks_cons (isBoundary_of_ink hx)]

end

theorem not_plainBreaks_return (a : Text) : ¬ PlainBreaks (a ++ ['\r']) := by
  intro h
  have := h.append_right
  simp [PlainBreaks, isBoundary] at this

theorem PlainBreaks.trim {a s : Text} (h : PlainBreaks (a ++ s)) : PlainBreaks (trim a ++ s) := by
  obtain ⟨l, r, ha, -, -⟩ := exists_blank_around a
  rcases List.eq_nil_or_concat (Text.trim a) with ht | ⟨b, z, ht⟩
  · rw [ht]
    exact h.append_right
  · rw [List.concat_eq_append] at ht
    have hz : isBlank z = false := getLast?_trimRight (t := trimLeft a) z (by
      rw [show trimRight (trimLeft a) = Text.trim a from rfl, ht, List.getLast?_concat]; rfl)
    have hcut : a ++ s = (l ++ b) ++ z :: (r ++ s) := by
      rw [ha, ht]; simp
    rw [hcut, plainBreaks_append_ink hz] at h
    rw [ht, List.append_assoc, List.singleton_append, plainBreaks_append_ink hz]
    exact ⟨h.1.append_right, h.2.append_right⟩

/-! ## Rows -/

/-- A row and what becomes of it: whatever comes after it, it has plain breaks if it had them. -/
def StaysPlain (l m : Text) : Prop := ∀ s, PlainBreaks (l ++ s) → PlainBreaks (m ++ s)

theorem StaysPlain.trans {l m n : Text} (h : StaysPlain l m) (h' : StaysPlain m n) : StaysPlain l n :=
  fun s hs => h' s (h s hs)

theorem plainBreaks_join {ls ms : List Text} (hr : List.Forall₂ StaysPlain ls ms)
    (h : PlainBreaks (join ['\n'] ls)) : PlainBreaks (join ['\n'] ms) := by
  induction hr with
  | nil => exact h
  | @cons l m ls ms hl hls ih =>
    cases hls with
    | nil => simpa [join] using hl [] (by simpa [join] using h)
    | cons =>
      rw [join_cons_cons, plainBreaks_append_newline] at h ⊢
      exact ⟨hl _ h.1, ih h.2⟩

end AgentRules.Text
