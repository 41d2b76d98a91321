import Mathlib
import AgentRules.Text.Utf8

/-!
# Reading what has been written

The bytes of a text are read back as the text, and no other bytes are read at all. The number of
bytes of a character is told by its first byte, and its bits are the last bits of its bytes put
together. Main statements: `decode_encode` and `decode_eq_ok_iff`.
-/

namespace AgentRules.Utf8

/-! ## One byte read -/

theorem decodeFrom_lead {n : Nat} {b : UInt8} {r : Bytes} (h : 1 < width b.toNat) :
    decodeFrom n none (b :: r) = decodeFrom (n + 1) (some ⟨b, n, 1, leadBits b.toNat⟩) r := by
  rw [decodeFrom, if_neg (by omega), if_neg (by omega)]

theorem decodeFrom_next {n : Nat} {p : Partial} {b : UInt8} {r : Bytes} (ht : p.takes b = true)
    (h : p.seen + 1 < width p.lead.toNat) :
    decodeFrom n (some p) (b :: r) = decodeFrom (n + 1) (some (p.add b)) r := by
  rw [decodeFrom, if_neg (by simp [ht]), if_neg (by omega)]

theorem decodeFrom_last {n : Nat} {p : Partial} {b : UInt8} {r : Bytes} (ht : p.takes b = true)
    (h : p.seen + 1 = width p.lead.toNat) :
    decodeFrom n (some p) (b :: r) = (decodeFrom (n + 1) none r).map (Char.ofNat (p.add b).bits :: ·) := by
  rw [decodeFrom, if_neg (by simp [ht]), if_pos h]

/-! ## Widths -/

theorem width_two {b : Nat} (h : 0xc2 ≤ b) (h' : b < 0xe0) : width b = 2 := by
  rw [width, if_neg (by omega), if_neg (by omega), if_pos h']

theorem width_three {b : Nat} (h : 0xe0 ≤ b) (h' : b < 0xf0) : width b = 3 := by
  rw [width, if_neg (by omega), if_neg (by omega), if_neg (by omega), if_pos h']

theorem width_four {b : Nat} (h : 0xf0 ≤ b) (h' : b < 0xf5) : width b = 4 := by
  rw [width, if_neg (by omega), if_neg (by omega), if_neg (by omega), if_neg (by omega), if_pos h']

theorem toNat_ofNat {n : Nat} (h : n < 256) : (UInt8.ofNat n).toNat = n := by
  rw [UInt8.toNat_ofNat', Nat.mod_eq_of_lt h]

theorem isTail_mod (n : Nat) : isTail (0x80 + n % 64) = true := by
  have : n % 64 < 64 := Nat.mod_lt _ (by omega)
  simp only [isTail, Bool.and_eq_true, decide_eq_true_eq]; omega

theorem takes_later {p : Partial} {b : UInt8} (h : p.seen ≠ 1) : p.takes b = isTail b.toNat := if_neg h

theorem char_range (c : Char) : c.toNat < 0xd800 ∨ 0xdfff < c.toNat ∧ c.toNat < 0x110000 := c.valid

/-! ## Characters -/

section
variable {c : Char} (k : Nat) (r : Bytes)

theorem decodeFrom_one (h : c.toNat < 0x80) :
    decodeFrom k none (UInt8.ofNat c.toNat :: r) = (decodeFrom (k + 1) none r).map (c :: ·) := by
  have hw : width (UInt8.ofNat c.toNat).toNat = 1 := by rw [toNat_ofNat (by omega), width, if_pos h]
  rw [decodeFrom, if_neg (by omega), if_pos hw, toNat_ofNat (by omega), Char.ofNat_toNat]

theorem decodeFrom_two (h : 0x80 ≤ c.toNat) (h' : c.toNat < 0x800) :
    decodeFrom k none (UInt8.ofNat (0xc0 + c.toNat / 64) :: UInt8.ofNat (0x80 + c.toNat % 64) :: r) =
      (decodeFrom (k + 2) none r).map (c :: ·) := by
  have hl : (UInt8.ofNat (0xc0 + c.toNat / 64)).toNat = 0xc0 + c.toNat / 64 := toNat_ofNat (by omega)
  have ht : (UInt8.ofNat (0x80 + c.toNat % 64)).toNat = 0x80 + c.toNat % 64 := toNat_ofNat (by omega)
  have hw : width (0xc0 + c.toNat / 64) = 2 := width_two (by omega) (by omega)
  rw [decodeFrom_lead (by rw [hl, hw]; omega), decodeFrom_last]
  · have hb : leadBits (0xc0 + c.toNat / 64) * 64 + (0x80 + c.toNat % 64) % 64 = c.toNat := by
      rw [leadBits, if_neg (by omega), if_pos (by omega)]; omega
    simp only [Partial.add, hl, ht, hb, Char.ofNat_toNat]
  · simp only [Partial.takes, hl, ht, isSecond, isTail_mod, ite_true, Bool.true_and]
    rw [if_neg (by omega), if_neg (by omega), if_neg (by omega), if_neg (by omega)]
  · simp only [hl, hw]

theorem decodeFrom_three (h : 0x800 ≤ c.toNat) (h' : c.toNat < 0x10000) :
    decodeFrom k none (UInt8.ofNat (0xe0 + c.toNat / 0x1000) :: UInt8.ofNat (0x80 + c.toNat / 64 % 64) ::
      UInt8.ofNat (0x80 + c.toNat % 64) :: r) = (decodeFrom (k + 3) none r).map (c :: ·) := by
  have hc := char_range c
  have hl : (UInt8.ofNat (0xe0 + c.toNat / 0x1000)).toNat = 0xe0 + c.toNat / 0x1000 := toNat_ofNat (by omega)
  have hs : (UInt8.ofNat (0x80 + c.toNat / 64 % 64)).toNat = 0x80 + c.toNat / 64 % 64 := toNat_ofNat (by omega)
  have ht : (UInt8.ofNat (0x80 + c.toNat % 64)).toNat = 0x80 + c.toNat % 64 := toNat_ofNat (by omega)
  have hw : width (0xe0 + c.toNat / 0x1000) = 3 := width_three (by omega) (by omega)
  rw [decodeFrom_lead (by rw [hl, hw]; omega), decodeFrom_next, decodeFrom_last]
  · have hb : (leadBits (0xe0 + c.toNat / 0x1000) * 64 + (0x80 + c.toNat / 64 % 64) % 64) * 64 +
        (0x80 + c.toNat % 64) % 64 = c.toNat := by
      rw [leadBits, if_neg (by omega), if_neg (by omega), if_pos (by omega)]; omega
    simp only [Partial.add, hl, hs, ht, hb, Char.ofNat_toNat]
  · rw [takes_later (by simp [Partial.add]), ht]; exact isTail_mod _
  · simp only [Partial.add, hl, hw]
  -- An overlong form or a surrogate would need a smaller or greater number.
  · simp only [Partial.takes, hl, hs, isSecond, isTail_mod, ite_true, Bool.true_and]
    split
    · simp only [decide_eq_true_eq]; omega
    · split
      · simp only [decide_eq_true_eq]; omega
      · rw [if_neg (by omega), if_neg (by omega)]
  · simp only [hl, hw]; omega

theorem decodeFrom_four (h : 0x10000 ≤ c.toNat) :
    decodeFrom k none (UInt8.ofNat (0xf0 + c.toNat / 0x40000) :: UInt8.ofNat (0x80 + c.toNat / 0x1000 % 64) ::
      UInt8.ofNat (0x80 + c.toNat / 64 % 64) :: UInt8.ofNat (0x80 + c.toNat % 64) :: r) =
      (decodeFrom (k + 4) none r).map (c :: ·) := by
  have hc := char_range c
  have hl : (UInt8.ofNat (0xf0 + c.toNat / 0x40000)).toNat = 0xf0 + c.toNat / 0x40000 := toNat_ofNat (by omega)
  have hs : (UInt8.ofNat (0x80 + c.toNat / 0x1000 % 64)).toNat = 0x80 + c.toNat / 0x1000 % 64 :=
    toNat_ofNat (by omega)
  have hm : (UInt8.ofNat (0x80 + c.toNat / 64 % 64)).toNat = 0x80 + c.toNat / 64 % 64 := toNat_ofNat (by omega)
  have ht : (UInt8.ofNat (0x80 + c.toNat % 64)).toNat = 0x80 + c.toNat % 64 := toNat_ofNat (by omega)
  have hw : width (0xf0 + c.toNat / 0x40000) = 4 := width_four (by omega) (by omega)
  rw [decodeFrom_lead (by rw [hl, hw]; omega), decodeFrom_next, decodeFrom_next, decodeFrom_last]
  · have hb : ((leadBits (0xf0 + c.toNat / 0x40000) * 64 + (0x80 + c.toNat / 0x1000 % 64) % 64) * 64 +
        (0x80 + c.toNat / 64 % 64) % 64) * 64 + (0x80 + c.toNat % 64) % 64 = c.toNat := by
      rw [leadBits, if_neg (by omega), if_neg (by omega), if_neg (by omega)]; omega
    simp only [Partial.add, hl, hs, hm, ht, hb, Char.ofNat_toNat]
  · rw [takes_later (by simp [Partial.add]), ht]; exact isTail_mod _
  · simp only [Partial.add, hl, hw]
  · rw [takes_later (by simp [Partial.add]), hm]; exact isTail_mod _
  · simp only [Partial.add, hl, hw]; omega
  · simp only [Partial.takes, hl, hs, isSecond, isTail_mod, ite_true, Bool.true_and]
    rw [if_neg (by omega), if_neg (by omega)]
    split
    · simp only [decide_eq_true_eq]; omega
    · split
      · simp only [decide_eq_true_eq]; omega
      · rfl
  · simp only [hl, hw]; omega

/-- The bytes of a character are read as this character, whatever comes after them. -/
theorem decodeFrom_encodeChar (c : Char) :
    decodeFrom k none (encodeChar c ++ r) = (decodeFrom (k + (encodeChar c).length) none r).map (c :: ·) := by
  simp only [encodeChar, Nat.div_one]
  split
  · next h => exact decodeFrom_one k r h
  split
  · next h h' => exact decodeFrom_two k r (by omega) h'
  split
  · next h _ h' => exact decodeFrom_three k r (by omega) h'
  · next h => exact decodeFrom_four k r (by omega)

end

theorem decodeFrom_encode (k : Nat) (t : Text) : decodeFrom k none (encode t) = .ok t := by
  induction t generalizing k with
  | nil => rfl
  | cons c t ih =>
    rw [encode, List.flatMap_cons, decodeFrom_encodeChar]
    rw [show t.flatMap encodeChar = encode t from rfl, ih]
    rfl

@[simp] theorem decode_encode (t : Text) : decode (encode t) = .ok t := decodeFrom_encode 0 t

/-! ## Only what has been written -/

/-- What the first byte of a character that is read can be. -/
theorem decodeFrom_none_eq_ok {n : Nat} {b : UInt8} {r : Bytes} {x : Text} (h : decodeFrom n none (b :: r) = .ok x) :
    (b.toNat < 0x80 ∧ ∃ y, x = Char.ofNat b.toNat :: y ∧ decodeFrom (n + 1) none r = .ok y) ∨
      (1 < width b.toNat ∧ decodeFrom (n + 1) (some ⟨b, n, 1, leadBits b.toNat⟩) r = .ok x) := by
  rw [decodeFrom] at h
  split at h
  · cases h
  · split at h
    · next hw =>
      left
      refine ⟨by unfold width at hw; split_ifs at hw <;> omega, ?_⟩
      cases hr : decodeFrom (n + 1) none r with
      | error f => rw [hr] at h; cases h
      | ok y => rw [hr] at h; exact ⟨y, (Except.ok.inj h).symm, rfl⟩
    · exact Or.inr ⟨by omega, h⟩

section
variable {n : Nat} {p : Partial} {bs : Bytes} {x : Text}

/-- A character that has been read in part goes on with a byte that it takes. -/
theorem decodeFrom_some_eq_ok (h : decodeFrom n (some p) bs = .ok x) : ∃ b r, bs = b :: r ∧ p.takes b = true ∧
    (p.seen + 1 = width p.lead.toNat → ∃ y, x = Char.ofNat (p.add b).bits :: y ∧ decodeFrom (n + 1) none r = .ok y) ∧
    (p.seen + 1 ≠ width p.lead.toNat → decodeFrom (n + 1) (some (p.add b)) r = .ok x) := by
  cases bs with
  | nil => cases h
  | cons b r =>
    rw [decodeFrom] at h
    split at h
    · cases h
    · next ht =>
      refine ⟨b, r, rfl, by simpa using ht, ?_⟩
      split at h
      · next hw =>
        refine ⟨fun _ => ?_, fun hne => absurd hw hne⟩
        cases hr : decodeFrom (n + 1) none r with
        | error f => rw [hr] at h; cases h
        | ok y => rw [hr] at h; exact ⟨y, (Except.ok.inj h).symm, rfl⟩
      · next hw => exact ⟨fun he => absurd he hw, fun _ => h⟩

end

theorem isSecond_iff {l b : Nat} : isSecond l b = true ↔ (0x80 ≤ b ∧ b < 0xc0) ∧ (l = 0xe0 → 0xa0 ≤ b) ∧
    (l = 0xed → b < 0xa0) ∧ (l = 0xf0 → 0x90 ≤ b) ∧ (l = 0xf4 → b < 0x90) := by
  simp only [isSecond, isTail, Bool.and_eq_true, decide_eq_true_eq]
  refine and_congr_right fun _ => ?_
  split
  · simp only [decide_eq_true_eq]; omega
  split
  · simp only [decide_eq_true_eq]; omega
  split
  · simp only [decide_eq_true_eq]; omega
  split
  · simp only [decide_eq_true_eq]; omega
  · simp only [true_iff]; omega

theorem isTail_iff {b : Nat} : isTail b = true ↔ 0x80 ≤ b ∧ b < 0xc0 := by
  simp only [isTail, Bool.and_eq_true, decide_eq_true_eq]

section
variable {l b c d : UInt8}

theorem ofNat_eq {n : Nat} (h : n = b.toNat) : UInt8.ofNat n = b := by rw [h, UInt8.ofNat_toNat]

theorem toNat_char {n : Nat} (h : n < 0xd800 ∨ 0xdfff < n ∧ n < 0x110000) : (Char.ofNat n).toNat = n := by
  rw [Char.toNat_ofNat, if_pos h]

theorem encodeChar_one (h : b.toNat < 0x80) : encodeChar (Char.ofNat b.toNat) = [b] := by
  have hc : (Char.ofNat b.toNat).toNat = b.toNat := toNat_char (by omega)
  simp only [encodeChar, hc]
  rw [if_pos h, ofNat_eq rfl]

theorem encodeChar_two (hl : 0xc2 ≤ l.toNat) (hl' : l.toNat < 0xe0) (hb : isTail b.toNat = true) :
    encodeChar (Char.ofNat (leadBits l.toNat * 64 + b.toNat % 64)) = [l, b] := by
  rw [isTail_iff] at hb
  rw [leadBits, if_neg (by omega), if_pos hl']
  have hc := toNat_char (n := (l.toNat - 0xc0) * 64 + b.toNat % 64) (by omega)
  simp only [encodeChar, hc]
  rw [if_neg (by omega), if_pos (by omega)]
  congr 1
  · exact ofNat_eq (by omega)
  · congr 1
    exact ofNat_eq (by omega)

theorem encodeChar_three (hl : 0xe0 ≤ l.toNat) (hl' : l.toNat < 0xf0) (hb : isSecond l.toNat b.toNat = true)
    (hc : isTail c.toNat = true) :
    encodeChar (Char.ofNat ((leadBits l.toNat * 64 + b.toNat % 64) * 64 + c.toNat % 64)) = [l, b, c] := by
  rw [isSecond_iff] at hb
  rw [isTail_iff] at hc
  rw [leadBits, if_neg (by omega), if_neg (by omega), if_pos hl']
  have hn := toNat_char (n := ((l.toNat - 0xe0) * 64 + b.toNat % 64) * 64 + c.toNat % 64) (by omega)
  simp only [encodeChar, hn]
  rw [if_neg (by omega), if_neg (by omega), if_pos (by omega)]
  congr 1
  · exact ofNat_eq (by omega)
  · congr 1
    · exact ofNat_eq (by omega)
    · congr 1
      exact ofNat_eq (by omega)

theorem encodeChar_four (hl : 0xf0 ≤ l.toNat) (hl' : l.toNat < 0xf5) (hb : isSecond l.toNat b.toNat = true)
    (hc : isTail c.toNat = true) (hd : isTail d.toNat = true) :
    encodeChar (Char.ofNat (((leadBits l.toNat * 64 + b.toNat % 64) * 64 + c.toNat % 64) * 64 + d.toNat % 64)) =
      [l, b, c, d] := by
  rw [isSecond_iff] at hb
  rw [isTail_iff] at hc hd
  rw [leadBits, if_neg (by omega), if_neg (by omega), if_neg (by omega)]
  have hn := toNat_char
    (n := (((l.toNat - 0xf0) * 64 + b.toNat % 64) * 64 + c.toNat % 64) * 64 + d.toNat % 64) (by omega)
  simp only [encodeChar, hn]
  rw [if_neg (by omega), if_neg (by omega), if_neg (by omega)]
  congr 1
  · exact ofNat_eq (by omega)
  · congr 1
    · exact ofNat_eq (by omega)
    · congr 1
      · exact ofNat_eq (by omega)
      · congr 1
        exact ofNat_eq (by omega)

end

theorem width_cases {b : Nat} (h : 1 < width b) : (width b = 2 ∧ 0xc2 ≤ b ∧ b < 0xe0) ∨
    (width b = 3 ∧ 0xe0 ≤ b ∧ b < 0xf0) ∨ (width b = 4 ∧ 0xf0 ≤ b ∧ b < 0xf5) := by
  unfold width at h ⊢
  split_ifs at h ⊢ <;> omega

theorem encode_cons {c : Char} {x : Text} {bs cs : Bytes} (hc : encodeChar c = bs) (hx : encode x = cs) :
    encode (c :: x) = bs ++ cs := by
  rw [← hc, ← hx, encode, List.flatMap_cons]; rfl

theorem encode_of_decodeFrom {n : Nat} {bs : Bytes} {x : Text} (h : decodeFrom n none bs = .ok x) : encode x = bs := by
  induction hk : bs.length using Nat.strong_induction_on generalizing n bs x with
  | _ k ih =>
    subst hk
    cases bs with
    | nil =>
      rw [← Except.ok.inj h]; rfl
    | cons l r =>
      rcases decodeFrom_none_eq_ok h with ⟨hl, y, rfl, hy⟩ | ⟨hw, h₁⟩
      · exact encode_cons (encodeChar_one hl) (ih _ (by simp) hy rfl)
      · obtain ⟨b, r, rfl, hb, hlast₁, hnext₁⟩ := decodeFrom_some_eq_ok h₁
        have hb : isSecond l.toNat b.toNat = true := hb
        rcases width_cases hw with ⟨hw, hl, hl'⟩ | ⟨hw, hl, hl'⟩ | ⟨hw, hl, hl'⟩
        · obtain ⟨y, rfl, hy⟩ := hlast₁ hw.symm
          have htail : isTail b.toNat = true := isTail_iff.mpr (isSecond_iff.mp hb).1
          exact encode_cons (encodeChar_two hl hl' htail) (ih _ (by simp) hy rfl)
        · obtain ⟨c, r, rfl, hc, hlast₂, -⟩ := decodeFrom_some_eq_ok (hnext₁ (by simp [hw]))
          have hc : isTail c.toNat = true := hc
          obtain ⟨y, rfl, hy⟩ := hlast₂ hw.symm
          exact encode_cons (encodeChar_three hl hl' hb hc) (ih _ (by simp; omega) hy rfl)
        · obtain ⟨c, r, rfl, hc, -, hnext₂⟩ := decodeFrom_some_eq_ok (hnext₁ (by simp [hw]))
          have hc : isTail c.toNat = true := hc
          obtain ⟨d, r, rfl, hd, hlast₃, -⟩ := decodeFrom_some_eq_ok (hnext₂ (by simp [Partial.add, hw]))
          have hd : isTail d.toNat = true := hd
          obtain ⟨y, rfl, hy⟩ := hlast₃ hw.symm
          exact encode_cons (encodeChar_four hl hl' hb hc hd) (ih _ (by simp; omega) hy rfl)

theorem decode_eq_ok_iff {bs : Bytes} {x : Text} : decode bs = .ok x ↔ encode x = bs := by
  constructor
  · exact encode_of_decodeFrom
  · intro h
    rw [← h, decode_encode]

end AgentRules.Utf8
