import Mathlib
import AgentRules.Proofs.Header.Grammar

/-!
# The extent of a header

A text may be read as a header in many ways, since three dashes may start many of its rows. Finding a
header, taking it off and measuring it all go by the reading with the shortest block. Main statement:
`header_goes_by_shortest`.
-/

namespace AgentRules.Header

/-! ## Readings -/

def IsLineEnd (e : Text) : Prop := e = ['\n'] ∨ e = ['\r', '\n']

/-- A reading of a text as a header with a block and a rest. -/
def Reads (t block rest : Text) : Prop :=
  ∃ e f, IsLineEnd e ∧ IsLineEnd f ∧ t = dashes ++ e ++ block ++ f ++ dashes ++ rest

/-- A reading with no shorter one. -/
def ReadsShortest (t block rest : Text) : Prop :=
  Reads t block rest ∧ ∀ b r, Reads t b r → block.length ≤ b.length

theorem IsLineEnd.eq_of_append {e f a b : Text} (he : IsLineEnd e) (hf : IsLineEnd f) (h : e ++ a = f ++ b) :
    e = f ∧ a = b := by
  rcases he with rfl | rfl
  · rcases hf with rfl | rfl
    · exact ⟨rfl, List.append_cancel_left h⟩
    · exact absurd (List.cons.inj h).1 (by decide)
  · rcases hf with rfl | rfl
    · exact absurd (List.cons.inj h).1 (by decide)
    · exact ⟨rfl, List.append_cancel_left h⟩

/-- A line end before three dashes is what closes a block, with a carriage return left to the block. -/
theorem IsLineEnd.append_dashes {f : Text} (hf : IsLineEnd f) (b r : Text) :
    ∃ c, b ++ f ++ dashes ++ r = c ++ closing ++ r ∧ (c = b ∨ c = b ++ ['\r']) := by
  rcases hf with rfl | rfl
  · exact ⟨b, by simp [closing], Or.inl rfl⟩
  · exact ⟨b ++ ['\r'], by simp [closing], Or.inr rfl⟩

theorem afterLineEnd?_eq_some_iff {t r : Text} : Text.afterLineEnd? t = some r ↔ ∃ e, IsLineEnd e ∧ t = e ++ r := by
  unfold Text.afterLineEnd?
  constructor
  · intro h
    split at h
    · exact ⟨['\n'], Or.inl rfl, by rw [Option.some.inj h]; rfl⟩
    · exact ⟨['\r', '\n'], Or.inr rfl, by rw [Option.some.inj h]; rfl⟩
    · cases h
  · rintro ⟨e, rfl | rfl, rfl⟩ <;> rfl

/-! ## The shortest block -/

/-- A block without a close in it is as short as any block before a close. -/
theorem length_le_of_closing {b c r s : Text} (hb : ¬ closing <:+: b) (h : b ++ closing ++ r = c ++ closing ++ s) :
    b.length ≤ c.length := by
  by_contra hlt
  rw [List.append_assoc, List.append_assoc] at h
  rcases List.append_eq_append_iff.mp h with ⟨u, rfl, -⟩ | ⟨u, rfl, hu⟩
  · simp at hlt
  · have hpre : closing <+: u ++ closing ++ r := ⟨s, by rw [hu, List.append_assoc]⟩
    rcases closing_prefix_append.mp hpre with rfl | hpre
    · simp at hlt
    · exact hb (hpre.isInfix.trans (List.suffix_append c u).isInfix)

theorem length_withoutReturn_le (t : Text) : (withoutReturn t).length ≤ t.length := by
  unfold withoutReturn
  split
  · rw [List.length_dropLast]; omega
  · exact le_refl _

theorem reads_of_cut? {t block rest : Text} (h : cut? t = some (block, rest)) : Reads t block rest := by
  obtain ⟨e, b, he, rfl, -, rfl⟩ := cut?_eq_some_iff.mp h
  unfold withoutReturn
  split
  · next hr =>
    refine ⟨e, ['\r', '\n'], he, Or.inr rfl, ?_⟩
    conv_lhs => rw [← List.dropLast_append_getLast? '\r' hr]
    simp [closing]
  · exact ⟨e, ['\n'], he, Or.inl rfl, by simp [closing]⟩

theorem readsShortest_of_cut? {t block rest : Text} (h : cut? t = some (block, rest)) :
    ReadsShortest t block rest := by
  refine ⟨reads_of_cut? h, fun b' r' ⟨e', f', he', hf', ht'⟩ => ?_⟩
  obtain ⟨e, b, he, ht, hb, rfl⟩ := cut?_eq_some_iff.mp h
  obtain ⟨c, hc, hcases⟩ := hf'.append_dashes b' r'
  have hsame : b ++ closing ++ rest = c ++ closing ++ r' := by
    have ht : dashes ++ (e ++ (b ++ closing ++ rest)) = dashes ++ (e' ++ (b' ++ f' ++ dashes ++ r')) := by
      rw [ht] at ht'
      simpa only [List.append_assoc] using ht'
    rw [← hc]
    exact (IsLineEnd.eq_of_append he he' (List.append_cancel_left ht)).2
  have hle := length_le_of_closing hb hsame
  rcases hcases with rfl | rfl
  · exact (length_withoutReturn_le b).trans hle
  · -- A block that reaches up to the return is the same block, and the return is not counted.
    rcases Nat.lt_or_ge b.length (b' ++ ['\r']).length with hlt | hge
    · rw [List.length_append, List.length_singleton] at hlt
      have := length_withoutReturn_le b
      omega
    · have hbe : b = b' ++ ['\r'] := by
        rw [List.append_assoc, List.append_assoc] at hsame
        exact (List.append_inj hsame (Nat.le_antisymm hle hge)).1
      rw [hbe, withoutReturn, if_pos List.getLast?_concat, List.dropLast_concat]

/-- Two shortest readings are the same. -/
theorem ReadsShortest.unique {t b c r s : Text} (h : ReadsShortest t b r) (h' : ReadsShortest t c s) : b = c ∧ r = s := by
  obtain ⟨⟨e, f, he, hf, rfl⟩, hb⟩ := h
  obtain ⟨⟨e', f', he', hf', ht⟩, hc⟩ := h'
  have hlen : b.length = c.length :=
    Nat.le_antisymm (hb c s ⟨e', f', he', hf', ht⟩) (hc b r ⟨e, f, he, hf, rfl⟩)
  simp only [List.append_assoc] at ht
  obtain ⟨-, ht⟩ := IsLineEnd.eq_of_append he he' (List.append_cancel_left ht)
  obtain ⟨hbc, ht⟩ := List.append_inj ht hlen
  obtain ⟨-, ht⟩ := IsLineEnd.eq_of_append hf hf' ht
  exact ⟨hbc, List.append_cancel_left ht⟩

theorem exists_cut?_of_reads {t b r : Text} (h : Reads t b r) : ∃ block rest, cut? t = some (block, rest) := by
  obtain ⟨e, f, he, hf, rfl⟩ := h
  obtain ⟨c, hc, -⟩ := hf.append_dashes b r
  obtain ⟨b', r', hfirst, hclose⟩ := Text.first_occurrence (p := closing) (by decide)
    (List.infix_append c closing r)
  refine ⟨withoutReturn b', r', cut?_eq_some_iff.mpr ⟨e, b', he, ?_, hclose, rfl⟩⟩
  rw [hfirst] at hc
  simp only [List.append_assoc] at hc ⊢
  rw [hc]

/-- **The header grammar, read backwards.** The cut is the reading with the shortest block. -/
theorem cut?_eq_some_iff_readsShortest {t block rest : Text} :
    cut? t = some (block, rest) ↔ ReadsShortest t block rest := by
  constructor
  · exact readsShortest_of_cut?
  · intro h
    obtain ⟨b, r, hc⟩ := exists_cut?_of_reads h.1
    obtain ⟨rfl, rfl⟩ := h.unique (readsShortest_of_cut? hc)
    exact hc

/-! ## Found, taken off, measured -/

theorem isFound_iff {t : Text} : (ofText t).isFound = true ↔ ∃ block rest, cut? t = some (block, rest) := by
  rw [ofText]
  cases h : cut? t with
  | none => simp [isFound]
  | some p =>
    obtain ⟨block, rest⟩ := p
    simp only [Option.some.injEq, Prod.mk.injEq, exists_and_left, exists_eq', and_true, iff_true, ofBlock]
    split <;> rfl

theorem length_body_add_extent (t : Text) : extent t + (body t).length = t.length :=
  Nat.sub_add_cancel (body_suffix t).length_le

theorem body_eq_drop (t : Text) : body t = t.drop (extent t) := List.suffix_iff_eq_drop.mp (body_suffix t)

/-- What is taken off with the header: one line end after the dashes, if there is one. -/
theorem exists_tail {t block rest : Text} (h : cut? t = some (block, rest)) :
    ∃ g, rest = g ++ body t ∧ (IsLineEnd g ∨ g = [] ∧ ∀ e, IsLineEnd e → ¬ e <+: rest) := by
  rw [body_of_cut? h]
  cases ha : Text.afterLineEnd? rest with
  | some r =>
    obtain ⟨e, he, rfl⟩ := afterLineEnd?_eq_some_iff.mp ha
    exact ⟨e, rfl, Or.inl he⟩
  | none =>
    refine ⟨[], rfl, Or.inr ⟨rfl, fun e he ⟨u, hu⟩ => ?_⟩⟩
    rw [afterLineEnd?_eq_some_iff.mpr ⟨e, he, hu.symm⟩] at ha
    cases ha

theorem extent_pos_iff {t : Text} : 0 < extent t ↔ ∃ block rest, cut? t = some (block, rest) := by
  constructor
  · intro h
    cases hc : cut? t with
    | none =>
      rw [extent, body_of_cut?_none hc, Nat.sub_self] at h
      cases h
    | some p => exact ⟨p.1, p.2, rfl⟩
  · rintro ⟨block, rest, hc⟩
    obtain ⟨g, hg, -⟩ := exists_tail hc
    obtain ⟨e, f, -, -, ht⟩ := reads_of_cut? hc
    have hlen := congrArg List.length ht
    rw [hg] at hlen
    have := length_body_add_extent t
    simp only [List.length_append, dashes, List.length_cons] at hlen
    omega

theorem exists_cut?_iff {t : Text} :
    (∃ block rest, cut? t = some (block, rest)) ↔ ∃ block rest, Reads t block rest :=
  ⟨fun ⟨b, r, h⟩ => ⟨b, r, reads_of_cut? h⟩, fun ⟨_, _, h⟩ => exists_cut?_of_reads h⟩

/-- **One header grammar.** A header is found, has a length, and can be read, all three or none of
them. The reading that counts has the shortest block: its block gives the fields, its rest without
one line end is the body, and everything before the body is the length. -/
theorem header_goes_by_shortest (t : Text) :
    ((ofText t).isFound = true ↔ ∃ block rest, Reads t block rest) ∧
      (0 < extent t ↔ ∃ block rest, Reads t block rest) ∧
      ((∃ block rest, Reads t block rest) ↔ ∃ block rest, ReadsShortest t block rest) ∧
      (∀ block rest, ReadsShortest t block rest → ofText t = ofBlock block ∧
        ∃ e f g, IsLineEnd e ∧ IsLineEnd f ∧ (IsLineEnd g ∨ g = [] ∧ ∀ e, IsLineEnd e → ¬ e <+: rest) ∧
          rest = g ++ body t ∧ t = dashes ++ e ++ block ++ f ++ dashes ++ rest ∧
          extent t = (dashes ++ e ++ block ++ f ++ dashes ++ g).length) ∧
      body t = t.drop (extent t) := by
  refine ⟨isFound_iff.trans exists_cut?_iff, extent_pos_iff.trans exists_cut?_iff, ?_, fun b r h => ?_, body_eq_drop t⟩
  · simp only [← cut?_eq_some_iff_readsShortest]
    exact exists_cut?_iff.symm
  · have hc := cut?_eq_some_iff_readsShortest.mpr h
    obtain ⟨e, f, he, hf, ht⟩ := h.1
    obtain ⟨g, hg, htail⟩ := exists_tail hc
    refine ⟨by rw [ofText, hc], e, f, g, he, hf, htail, hg, ht, ?_⟩
    have hlen := congrArg List.length ht
    have hsum := length_body_add_extent t
    rw [hg] at hlen
    simp only [List.length_append] at hlen ⊢
    omega

/-- Three rows of dashes after the first: the block ends before the first one that it can end before. -/
theorem repeated_dashes_read_shortest :
    ReadsShortest "---\r\n---\r\n---\n---\n".toList "---".toList "\n---\n".toList ∧
      ofText "---\r\n---\r\n---\n---\n".toList = ofBlock "---".toList ∧
      extent "---\r\n---\r\n---\n---\n".toList = 14 ∧ body "---\r\n---\r\n---\n---\n".toList = "---\n".toList := by
  have h : ReadsShortest "---\r\n---\r\n---\n---\n".toList "---".toList "\n---\n".toList :=
    cut?_eq_some_iff_readsShortest.mp (by decide)
  have hall := header_goes_by_shortest "---\r\n---\r\n---\n---\n".toList
  exact ⟨h, (hall.2.2.2.1 _ _ h).1, by decide, hall.2.2.2.2.trans (by decide)⟩

end AgentRules.Header
