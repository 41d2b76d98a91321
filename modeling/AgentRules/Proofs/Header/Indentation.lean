import Mathlib
import AgentRules.Proofs.Header.Grammar
import AgentRules.Proofs.Partition
import AgentRules.Proofs.Text.Breaks

/-!
# Indentation, character by character

Whether the lines of a block are well indented can be told in one pass over its characters. Of what
has been read it takes two things: where in the row it is, and whether the last character that was
not blank is a colon. Main statements: the pass agrees with the test on rows
(`inPlace_eq_wellIndented`), and with plain line breaks a block that passes can be read
(`exists_fields_of_inPlace`).
-/

namespace AgentRules.Header

open Text (isBlank allBlank rows inkedRows PlainBreaks)

/-! ## Colons at the end -/

theorem endsWithColon_append_blank (a : Text) {b : Text} (hb : allBlank b = true) :
    endsWithColon (a ++ b) = endsWithColon a := by
  rw [endsWithColon, endsWithColon, Text.trimRight_append_blank a hb]

theorem endsWithColon_append_cons {x : Char} (hx : isBlank x = false) (a b : Text) :
    endsWithColon (a ++ x :: b) = endsWithColon (x :: b) := by
  have h := Text.trimRight_append_cons hx [] b
  rw [List.nil_append, List.nil_append] at h
  rw [endsWithColon, endsWithColon, Text.trimRight_append_cons hx, h, List.getLast?_append_cons]

theorem endsWithColon_snoc (a : Text) (c : Char) :
    endsWithColon (a ++ [c]) = if isBlank c then endsWithColon a else decide (c = ':') := by
  by_cases hc : isBlank c = true
  · rw [if_pos hc, endsWithColon_append_blank a (by simp [allBlank, hc])]
  · have h := endsWithColon_append_cons (by simpa using hc) a []
    rw [if_neg hc, h]
    simp [endsWithColon, Text.trimRight, hc]

theorem isIndented_of_ink {c : Char} (hc : isBlank c = false) (r : Text) : isIndented (c :: r) = false := by
  have h₁ : c ≠ ' ' := fun e => by rw [e] at hc; exact absurd hc (by decide)
  have h₂ : c ≠ '\t' := fun e => by rw [e] at hc; exact absurd hc (by decide)
  simp [isIndented, h₁, h₂]

theorem isIndented_append_ink {c : Char} (hc : isBlank c = false) (i w : Text) :
    isIndented (i ++ c :: w) = isIndented i := by
  cases i with
  | nil => exact isIndented_of_ink hc w
  | cons d i => rfl

/-! ## Places in a row -/

inductive Spot
  | start
  | indented
  | within
  deriving DecidableEq

/-- A blank starts an indentation only if it is a space or a tab. -/
def Spot.next (c : Char) : Spot → Spot
  | .start => if c = ' ' || c = '\t' then .indented else .within
  | s => s

/-- No character that is not blank comes after an indentation, unless it is a dash or the last such
character before it, which the flag tells of, is a colon. -/
def inPlace : Spot → Bool → Text → Bool
  | _, _, [] => true
  | s, colon, c :: r =>
    if c = '\n' then inPlace .start colon r
    else if isBlank c then inPlace (s.next c) colon r
    else (s != .indented || c = '-' || colon) && inPlace .within (c = ':') r

section
variable (s : Spot) (k : Bool)

theorem inPlace_newline (r : Text) : inPlace s k ('\n' :: r) = inPlace .start k r := by
  simp [inPlace]

theorem inPlace_blank {c : Char} (hn : c ≠ '\n') (hc : isBlank c = true) (r : Text) :
    inPlace s k (c :: r) = inPlace (s.next c) k r := by
  simp [inPlace, hn, hc]

theorem inPlace_ink {c : Char} (hc : isBlank c = false) (r : Text) :
    inPlace s k (c :: r) = ((s != .indented || c = '-' || k) && inPlace .within (c = ':') r) := by
  have hn : c ≠ '\n' := fun e => by rw [e] at hc; exact absurd hc (by decide)
  simp [inPlace, hn, hc]

/-- What comes after a character that is not blank hangs on this character only. -/
theorem inPlace_append_cons {x : Char} (hx : isBlank x = false) (a b : Text) :
    inPlace s k (a ++ x :: b) = (inPlace s k (a ++ [x]) && inPlace .within (x = ':') b) := by
  induction a generalizing s k with
  | nil => simp [inPlace_ink _ _ hx, inPlace]
  | cons c a ih =>
    by_cases hn : c = '\n'
    · simp only [hn, List.cons_append, inPlace_newline, ih]
    · by_cases hc : isBlank c = true
      · simp only [List.cons_append, inPlace_blank _ _ hn hc, ih]
      · have hc : isBlank c = false := by simpa using hc
        simp only [List.cons_append, inPlace_ink _ _ hc, ih, Bool.and_assoc]

theorem inPlace_snoc_congr {x y : Char} (hx : isBlank x = false) (hy : isBlank y = false) (hx' : x ≠ '-')
    (hy' : y ≠ '-') (a : Text) : inPlace s k (a ++ [x]) = inPlace s k (a ++ [y]) := by
  induction a generalizing s k with
  | nil => simp [inPlace_ink _ _ hx, inPlace_ink _ _ hy, inPlace, hx', hy']
  | cons c a ih => simp only [List.cons_append, inPlace, ih]

end

/-! ## Rows -/

theorem inPlace_within {w : Text} (hw : '\n' ∉ w) (a r : Text) :
    inPlace .within (endsWithColon a) (w ++ r) = inPlace .within (endsWithColon (a ++ w)) r := by
  induction w generalizing a with
  | nil => simp
  | cons c w ih =>
    rw [List.mem_cons, not_or] at hw
    have hc := endsWithColon_snoc a c
    have hih := ih hw.2 (a ++ [c])
    rw [hc, List.append_assoc, List.singleton_append] at hih
    by_cases hb : isBlank c = true
    · rw [if_pos hb] at hih
      rw [List.cons_append, inPlace_blank _ _ (Ne.symm hw.1) hb, ← hih]; rfl
    · rw [if_neg hb] at hih
      rw [List.cons_append, inPlace_ink _ _ (by simpa using hb), ← hih]; rfl

/-- Blanks lead into an indentation if the first of them does. -/
theorem inPlace_blanks {i : Text} (hi : allBlank i = true) (hn : '\n' ∉ i) : ∀ s : Spot, ∃ s' : Spot,
    (∀ k r, inPlace s k (i ++ r) = inPlace s' k r) ∧
      (s' = .indented ↔ s = .indented ∨ s = .start ∧ isIndented i = true) := by
  induction i with
  | nil =>
    intro s
    exact ⟨s, fun _ _ => rfl, by simp [isIndented]⟩
  | cons c i ih =>
    intro s
    rw [List.mem_cons, not_or] at hn
    have hc : isBlank c = true ∧ allBlank i = true := by simpa [allBlank] using hi
    obtain ⟨s', hs', hind⟩ := ih hc.2 hn.2 (s.next c)
    refine ⟨s', fun k r => by rw [List.cons_append, inPlace_blank _ _ (Ne.symm hn.1) hc.1, hs'], ?_⟩
    rw [hind]
    cases s with
    | start => by_cases h : c = ' ' ∨ c = '\t' <;> simp [Spot.next, isIndented, h]
    | indented => simp [Spot.next]
    | within => simp [Spot.next]

section
variable {r : Text} {f : Bool → Bool} (hf : ∀ s k, inPlace s k r = f k)
include hf

theorem inPlace_row_ink {i w : Text} {c : Char} (hi : allBlank i = true) (hn : '\n' ∉ i) (hc : isBlank c = false)
    (hw : '\n' ∉ w) (p : Text) : inPlace .start (endsWithColon p) (i ++ c :: w ++ r) =
      (!isMisplaced p (i ++ c :: w) && f (endsWithColon (i ++ c :: w))) := by
  obtain ⟨s, hs, hind⟩ := inPlace_blanks hi hn .start
  have hcolon : inPlace .within (decide (c = ':')) (w ++ r) = f (endsWithColon (i ++ c :: w)) := by
    have hone : endsWithColon [c] = decide (c = ':') := by
      have h := endsWithColon_snoc [] c
      rwa [hc, List.nil_append] at h
    rw [← hone, inPlace_within hw, hf, endsWithColon_append_cons hc]; rfl
  have hspot : (s != .indented) = !isIndented (i ++ c :: w) := by
    rw [isIndented_append_ink hc]
    cases h : isIndented i <;> simp [hind, h]
  rw [List.append_assoc, hs, List.cons_append, inPlace_ink _ _ hc, hcolon, isMisplaced, Text.head?_trim_of_ink hi hc,
    hspot]
  cases isIndented (i ++ c :: w) <;> cases endsWithColon p <;> by_cases hdash : c = '-' <;> simp [hdash]

/-- A row before a text that is judged by the colon alone, such as the end or a line feed. -/
theorem inPlace_row {l : Text} (hl : '\n' ∉ l) (p : Text) : inPlace .start (endsWithColon p) (l ++ r) =
    if allBlank l then f (endsWithColon p) else !isMisplaced p l && f (endsWithColon l) := by
  rcases Text.blank_or_exists_ink l with hb | ⟨i, c, w, rfl, hi, hc⟩
  · obtain ⟨s, hs, -⟩ := inPlace_blanks hb hl .start
    rw [if_pos hb, hs, hf]
  · rw [List.mem_append, List.mem_cons, not_or, not_or] at hl
    have hink : allBlank (i ++ c :: w) = false := by simp [allBlank, hc]
    rw [if_neg (by simp [hink]), inPlace_row_ink hf hi hl.1 hc hl.2.2]

end

theorem inPlace_join : ∀ {ls : List Text}, (∀ l ∈ ls, '\n' ∉ l) → ∀ p : Text,
    inPlace .start (endsWithColon p) (Text.join ['\n'] ls) = wellIndented p (ls.filter (!allBlank ·))
  | [], _, _ => rfl
  | [l], h, p => by
    have hrow := inPlace_row (r := []) (f := fun _ => true) (fun _ _ => rfl) (h l (by simp)) p
    rw [List.append_nil] at hrow
    rw [Text.join, hrow]
    by_cases hb : allBlank l = true <;> simp [hb, wellIndented]
  | l :: m :: ls, h, p => by
    have ih := inPlace_join fun n (hn : n ∈ m :: ls) => h n (List.mem_cons_of_mem l hn)
    rw [Text.join_cons_cons, inPlace_row (fun s k => inPlace_newline s k _) (h l (by simp))]
    by_cases hb : allBlank l = true
    · rw [if_pos hb, List.filter_cons_of_neg (by simp [hb]), ih]
    · rw [if_neg hb, List.filter_cons_of_pos (by simp [hb]), wellIndented, ih]

theorem inPlace_eq_wellIndented (t : Text) : inPlace .start false t = wellIndented [] (inkedRows t) := by
  have h := inPlace_join (fun l (hl : l ∈ rows t) => Text.sep_not_mem_fields hl) []
  rwa [rows, Text.join_fields] at h

/-! ## Rows and lines -/

theorem withoutReturn_cases (t : Text) : withoutReturn t = t ∨ t = withoutReturn t ++ ['\r'] := by
  unfold withoutReturn
  split
  · next h => exact Or.inr (List.dropLast_append_getLast? '\r' h).symm
  · exact Or.inl rfl

section
variable (l p : Text)

theorem allBlank_withoutReturn : allBlank (withoutReturn l) = allBlank l := by
  rcases withoutReturn_cases l with h | h
  · rw [h]
  · conv_rhs => rw [h]
    have hr : isBlank '\r' = true := by decide
    simp [allBlank, hr]

theorem isIndented_withoutReturn : isIndented (withoutReturn l) = isIndented l := by
  rcases withoutReturn_cases l with h | h
  · rw [h]
  · conv_rhs => rw [h]
    cases withoutReturn l <;> rfl

theorem trim_withoutReturn : Text.trim (withoutReturn l) = Text.trim l := by
  rcases withoutReturn_cases l with h | h
  · rw [h]
  · conv_rhs => rw [h]
    have hr : allBlank ['\r'] = true := by decide
    exact (Text.trim_append_blank _ hr).symm

theorem endsWithColon_withoutReturn : endsWithColon (withoutReturn l) = endsWithColon l := by
  rcases withoutReturn_cases l with h | h
  · rw [h]
  · conv_rhs => rw [h]
    exact (endsWithColon_append_blank _ (by decide)).symm

theorem isMisplaced_withoutReturn : isMisplaced (withoutReturn p) (withoutReturn l) = isMisplaced p l := by
  rw [isMisplaced, isMisplaced, isIndented_withoutReturn, trim_withoutReturn, endsWithColon_withoutReturn]

end

theorem wellIndented_map_withoutReturn (ls : List Text) : ∀ p : Text,
    wellIndented (withoutReturn p) (ls.map withoutReturn) = wellIndented p ls := by
  induction ls with
  | nil => intro p; rfl
  | cons l ls ih =>
    intro p
    rw [List.map_cons, wellIndented, wellIndented, isMisplaced_withoutReturn, ih]

/-- With plain breaks the lines are the rows without their returns, but for an empty last one. -/
theorem lines_eq_rows {t : Text} (h : PlainBreaks t) : (rows t).map withoutReturn = Text.lines t ∨
    (rows t).map withoutReturn = Text.lines t ++ [[]] := by
  induction t using Text.lines.induct with
  | case1 => exact Or.inr rfl
  | case2 r ih =>
    have hrows : rows ('\r' :: '\n' :: r) = ['\r'] :: rows r := by
      rw [Text.rows_cons (by decide), Text.rows_cons_newline]; rfl
    rw [hrows, Text.lines, List.map_cons]
    exact (ih h.2.2).imp (fun e => by rw [e]; rfl) (fun e => by rw [e]; rfl)
  | case3 c r hr hc ih =>
    have hn : c = '\n' := by
      rcases h.1 hc with hn | ⟨hret, hhead⟩
      · exact hn
      · obtain ⟨r', rfl⟩ : ∃ r', r = '\n' :: r' := by
          cases r with
          | nil => cases hhead
          | cons d r => exact ⟨r, by rw [Option.some.inj hhead]⟩
        exact absurd rfl (hr r' hret)
    rw [Text.lines.eq_3 _ _ hr, if_pos hc, hn, Text.rows_cons_newline, List.map_cons]
    exact (ih h.2).imp (fun e => by rw [e]; rfl) (fun e => by rw [e]; rfl)
  | case4 c r hr hc ih =>
    have hn : c ≠ '\n' := fun e => hc (by rw [e]; decide)
    have hret : c ≠ '\r' := fun e => hc (by rw [e]; decide)
    have hpush : (rows (c :: r)).map withoutReturn = Text.push c ((rows r).map withoutReturn) := by
      rw [Text.rows_cons hn]
      cases rows r with
      | nil => simp [Text.push, withoutReturn, hret]
      | cons l ls => simp [Text.push, withoutReturn_cons (c := c) fun h => hret h.1]
    rw [Text.lines.eq_3 _ _ hr, if_neg hc, hpush]
    rcases ih h.2 with e | e
    · exact Or.inl (by rw [e])
    · rw [e]
      cases Text.lines r with
      | nil => exact Or.inl rfl
      | cons l ls => exact Or.inr rfl

theorem blockLines_eq {t : Text} (h : PlainBreaks t) : blockLines t = (inkedRows t).map withoutReturn := by
  have hfilter : (inkedRows t).map withoutReturn = ((rows t).map withoutReturn).filter (!allBlank ·) := by
    rw [inkedRows, List.filter_map]
    congr 1
    exact List.filter_congr fun l _ => by simp [allBlank_withoutReturn]
  rw [hfilter, blockLines]
  rcases lines_eq_rows h with e | e
  · rw [e]
  · rw [e, List.filter_append]; exact (List.append_nil _).symm

theorem blockLines_eq_inkedRows {t : Text} (h : PlainBreaks t) (hr : '\r' ∉ t) : blockLines t = inkedRows t := by
  have hsame : (inkedRows t).map withoutReturn = (inkedRows t).map id := List.map_congr_left fun l hl =>
    withoutReturn_of_not_mem fun hm => hr (Text.mem_of_mem_fields (List.mem_of_mem_filter hl) hm)
  rw [blockLines_eq h, hsame, List.map_id]

/-- **Blocks that can be read.** -/
theorem exists_fields_of_inPlace {t : Text} (h : PlainBreaks t) (hp : inPlace .start false t = true) :
    ∃ fs, ofBlock t = .fields fs := by
  rw [inPlace_eq_wellIndented, ← wellIndented_map_withoutReturn, ← blockLines_eq h] at hp
  exact ⟨_, if_pos hp⟩

end AgentRules.Header
