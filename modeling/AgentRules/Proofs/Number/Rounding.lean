import Mathlib
import AgentRules.Number.Binary64

/-!
# Rounding

A positive quotient is scaled by a power of two, made a whole number and scaled back. What is known of
the result: it stays on its side of every power of two from the least one of the format on
(`roundQuotient_le`, `le_roundQuotient`), it keeps the order of quotients (`roundQuotient_mono`), and it
is out of range from half a place below the first power of two that the format lacks
(`two_pow_le_roundQuotient_iff`).
-/

namespace AgentRules.Binary64

/-! ## The nearest whole number -/

theorem nearest_eq (n d : ℕ) : nearest n d =
    if 2 * (n % d) < d then n / d else if d < 2 * (n % d) then n / d + 1 else n / d + n / d % 2 := rfl

section
variable {n d k : ℕ} (hd : 0 < d)
include hd

theorem nearest_le (h : n ≤ d * k) : nearest n d ≤ k := by
  have hn := Nat.div_add_mod n d
  rw [nearest_eq]
  rcases Nat.lt_or_ge (n / d) k with hlt | hge
  · split_ifs <;> omega
  · -- The quotient is whole, and nothing is left over.
    have hmul : d * k ≤ d * (n / d) := Nat.mul_le_mul_left d hge
    have hq : n / d ≤ k := Nat.div_le_of_le_mul h
    rw [if_pos (by omega)]
    exact hq

theorem le_nearest (h : d * k ≤ n) : k ≤ nearest n d := by
  have hq : k ≤ n / d := (Nat.le_div_iff_mul_le hd).mpr (by rwa [Nat.mul_comm])
  rw [nearest_eq]
  split_ifs <;> omega

/-- Half a place below an even number is rounded up to it. -/
theorem lt_nearest_iff (hk : k % 2 = 1) : k < nearest n d ↔ d * (2 * k + 1) ≤ 2 * n := by
  have hn := Nat.div_add_mod n d
  have hr := Nat.mod_lt n hd
  have hexpand : d * (2 * k + 1) = 2 * (d * k) + d := by ring
  rw [hexpand]
  rcases Nat.lt_trichotomy (n / d) k with hlt | heq | hgt
  · have hmul : d * (n / d + 1) ≤ d * k := Nat.mul_le_mul_left d hlt
    rw [Nat.mul_succ] at hmul
    have hle : nearest n d ≤ k := nearest_le hd (by omega)
    omega
  · rw [nearest_eq, heq]
    rw [heq] at hn
    split_ifs <;> omega
  · have hmul : d * (k + 1) ≤ d * (n / d) := Nat.mul_le_mul_left d hgt
    rw [Nat.mul_succ] at hmul
    have hle : k + 1 ≤ nearest n d := le_nearest hd (by rw [Nat.mul_succ]; omega)
    omega

end

theorem nearest_mono {n d m k : ℕ} (hd : 0 < d) (hk : 0 < k) (h : n * k ≤ m * d) : nearest n d ≤ nearest m k := by
  have hn := Nat.div_add_mod n d
  have hm := Nat.div_add_mod m k
  have hq : n / d ≤ m / k := by
    rw [Nat.le_div_iff_mul_le hk]
    refine Nat.le_of_mul_le_mul_right ?_ hd
    calc n / d * k * d = n / d * d * k := Nat.mul_right_comm _ _ _
      _ ≤ n * k := Nat.mul_le_mul_right k (Nat.div_mul_le_self n d)
      _ ≤ m * d := h
  rw [nearest_eq, nearest_eq]
  rcases hq.lt_or_eq with hlt | heq
  · split_ifs <;> omega
  · -- With equal whole parts, what is left over decides on which side of the half each one is.
    have hrest : 2 * (n % d) * k ≤ 2 * (m % k) * d := by
      have hwhole : d * (n / d) * k = k * (m / k) * d := by rw [heq]; ring
      rw [← hn, ← hm, add_mul, add_mul, hwhole] at h
      rw [mul_assoc, mul_assoc]
      exact Nat.mul_le_mul_left 2 (Nat.le_of_add_le_add_left h)
    have hhalf : d ≤ 2 * (n % d) → k ≤ 2 * (m % k) := fun hle => by
      refine Nat.le_of_mul_le_mul_right ?_ hd
      calc k * d = d * k := Nat.mul_comm k d
        _ ≤ 2 * (n % d) * k := Nat.mul_le_mul_right k hle
        _ ≤ 2 * (m % k) * d := hrest
    have hmore : d < 2 * (n % d) → k < 2 * (m % k) := fun hlt => by
      refine Nat.lt_of_mul_lt_mul_right (a := d) ?_
      calc k * d = d * k := Nat.mul_comm k d
        _ < 2 * (n % d) * k := Nat.mul_lt_mul_of_pos_right hlt hk
        _ ≤ 2 * (m % k) * d := hrest
    rw [heq]
    split_ifs <;> omega

/-! ## Powers of two -/

theorem two_zpow_of_nonneg {e : ℤ} (h : 0 ≤ e) : (2 : ℚ) ^ e = (Nat.pow 2 e.toNat : ℕ) := by
  obtain ⟨k, rfl⟩ := Int.eq_ofNat_of_zero_le h
  simp

theorem two_zpow_of_neg {e : ℤ} (h : ¬ 0 ≤ e) : (2 : ℚ) ^ e = ((Nat.pow 2 (-e).toNat : ℕ) : ℚ)⁻¹ := by
  rw [← two_zpow_of_nonneg (by omega), zpow_neg, inv_inv]

theorem power2_eq (e : ℤ) : power2 e = (2 : ℚ) ^ e := by
  unfold power2
  split
  · next he => exact (two_zpow_of_nonneg he).symm
  · next he => rw [Rat.mkRat_eq_div, two_zpow_of_neg he]; simp

/-- The powers of two around the end of the range, by half a place there. -/
theorem exists_half_place : ∃ u : ℚ, 0 < u ∧ (2 : ℚ) ^ 970 = u ∧ (2 : ℚ) ^ (971 : ℤ) = 2 * u ∧
    (2 : ℚ) ^ (1023 : ℤ) = 2 ^ 53 * u ∧ (2 : ℚ) ^ (1024 : ℤ) = 2 ^ 54 * u ∧ (2 : ℚ) ^ 1024 = 2 ^ 54 * u := by
  have hpow : (2 : ℚ) ^ (1024 : ℤ) = 2 ^ 1024 := zpow_ofNat 2 1024
  have hadd : ∀ k : ℤ, (2 : ℚ) ^ (k + 970) = 2 ^ k * 2 ^ 970 := fun k => by
    rw [zpow_add₀ two_ne_zero]; exact congrArg _ (zpow_ofNat 2 970)
  exact ⟨2 ^ 970, pow_pos two_pos 970, rfl, hadd 1, hadd 53, hadd 54, by rw [← hpow]; exact hadd 54⟩

/-! ## The exponent -/

section
variable {n d : ℕ}

/-- Whether a power of two is at most a quotient, told without fractions. -/
theorem two_zpow_le_div_iff (hd : 0 < d) (k : ℤ) : (2 : ℚ) ^ k ≤ n / d ↔
    if 0 ≤ k then d * Nat.pow 2 k.toNat ≤ n else d ≤ n * Nat.pow 2 (-k).toNat := by
  have hdq : (0 : ℚ) < d := by exact_mod_cast hd
  rw [le_div_iff₀ hdq]
  split
  · next hk =>
    rw [two_zpow_of_nonneg hk, mul_comm]
    exact_mod_cast Iff.rfl
  · next hk =>
    have hpow : (0 : ℚ) < (Nat.pow 2 (-k).toNat : ℕ) := by exact_mod_cast Nat.pow_pos two_pos
    rw [two_zpow_of_neg hk, inv_mul_le_iff₀ hpow, mul_comm]
    exact_mod_cast Iff.rfl

variable (hn : 0 < n) (hd : 0 < d)
include hn hd

theorem log2_bounds : (2 : ℚ) ^ ((n.log2 : ℤ) - d.log2 - 1) ≤ n / d ∧
    (n : ℚ) / d < (2 : ℚ) ^ ((n.log2 : ℤ) - d.log2 + 1) := by
  have hdq : (0 : ℚ) < d := by exact_mod_cast hd
  have hn₁ : (2 : ℚ) ^ n.log2 ≤ n := by exact_mod_cast Nat.log2_self_le hn.ne'
  have hn₂ : (n : ℚ) < 2 ^ (n.log2 + 1) := by exact_mod_cast Nat.lt_log2_self
  have hd₁ : (2 : ℚ) ^ d.log2 ≤ d := by exact_mod_cast Nat.log2_self_le hd.ne'
  have hd₂ : (d : ℚ) < 2 ^ (d.log2 + 1) := by exact_mod_cast Nat.lt_log2_self
  constructor
  · rw [le_div_iff₀ hdq]
    calc (2 : ℚ) ^ ((n.log2 : ℤ) - d.log2 - 1) * d
        ≤ 2 ^ ((n.log2 : ℤ) - d.log2 - 1) * 2 ^ (d.log2 + 1) := by gcongr
      _ = 2 ^ n.log2 := by
        rw [← zpow_natCast, ← zpow_natCast, ← zpow_add₀ two_ne_zero]; congr 1; push_cast; ring
      _ ≤ n := hn₁
  · rw [div_lt_iff₀ hdq]
    calc (n : ℚ) < 2 ^ (n.log2 + 1) := hn₂
      _ = 2 ^ ((n.log2 : ℤ) - d.log2 + 1) * 2 ^ d.log2 := by
        rw [← zpow_natCast, ← zpow_natCast, ← zpow_add₀ two_ne_zero]; congr 1; push_cast; ring
      _ ≤ 2 ^ ((n.log2 : ℤ) - d.log2 + 1) * d := by gcongr

theorem two_zpow_le_div_iff_le_log (k : ℤ) : (2 : ℚ) ^ k ≤ n / d ↔ k ≤ Int.log 2 ((n : ℚ) / d) := by
  have hq : (0 : ℚ) < n / d := by positivity
  exact_mod_cast Int.zpow_le_iff_le_log (b := 2) (by decide) hq

/-- The place of the first binary digit of the quotient, less 52, as far down as the format goes. -/
theorem exponent_eq : exponent n d = max (-1074) (Int.log 2 ((n : ℚ) / d) - 52) := by
  obtain ⟨hlow, hhigh⟩ := log2_bounds hn hd
  rw [two_zpow_le_div_iff_le_log hn hd] at hlow
  rw [← not_le, two_zpow_le_div_iff_le_log hn hd] at hhigh
  have hguess := (two_zpow_le_div_iff (n := n) hd (n.log2 - d.log2)).symm.trans
    (two_zpow_le_div_iff_le_log hn hd _)
  have hunfold : exponent n d = max (-1074) (if (if 0 ≤ (n.log2 : ℤ) - d.log2
      then d * Nat.pow 2 ((n.log2 : ℤ) - d.log2).toNat ≤ n else d ≤ n * Nat.pow 2 (-((n.log2 : ℤ) - d.log2)).toNat)
      then (n.log2 : ℤ) - d.log2 - 52 else (n.log2 : ℤ) - d.log2 - 53) := by
    simp [exponent]
  rw [hunfold]
  simp only [hguess]
  congr 1
  split <;> omega

/-! ## Rounding a quotient -/

omit hn in
/-- The quotient in units of the last place. -/
theorem exists_scaled : ∃ N D : ℕ, 0 < D ∧ (N : ℚ) / D = n / d / 2 ^ exponent n d ∧
    roundQuotient n d = nearest N D * 2 ^ exponent n d := by
  by_cases he : 0 ≤ exponent n d
  · refine ⟨n, d * Nat.pow 2 (exponent n d).toNat, Nat.mul_pos hd (Nat.pow_pos two_pos), ?_, ?_⟩
    · rw [two_zpow_of_nonneg he, Nat.cast_mul, div_mul_eq_div_div]
    · simp only [roundQuotient, if_pos he, power2_eq]
  · refine ⟨n * Nat.pow 2 (-exponent n d).toNat, d, hd, ?_, ?_⟩
    · rw [two_zpow_of_neg he, Nat.cast_mul, div_inv_eq_mul, mul_div_right_comm]
    · simp only [roundQuotient, if_neg he, power2_eq]

theorem roundQuotient_le {k : ℤ} (hk : -1074 ≤ k) (h : (n : ℚ) / d ≤ 2 ^ k) : roundQuotient n d ≤ 2 ^ k := by
  obtain ⟨N, D, hD, hscaled, hround⟩ := exists_scaled (n := n) hd
  have hlog : Int.log 2 ((n : ℚ) / d) ≤ k := by
    have hlt : ¬ (2 : ℚ) ^ (k + 1) ≤ n / d :=
      not_le.mpr (h.trans_lt (zpow_lt_zpow_right₀ (by norm_num) (lt_add_one k)))
    rw [two_zpow_le_div_iff_le_log hn hd] at hlt
    omega
  -- In units of the last place the power of two is whole.
  obtain ⟨j, rfl⟩ : ∃ j : ℕ, k = exponent n d + j :=
    ⟨(k - exponent n d).toNat, by rw [exponent_eq hn hd]; omega⟩
  rw [zpow_add₀ two_ne_zero, mul_comm, ← div_le_iff₀ (by positivity), ← hscaled,
    div_le_iff₀ (by exact_mod_cast hD), zpow_natCast, mul_comm] at h
  have hnearest : nearest N D ≤ 2 ^ j := nearest_le hD (by exact_mod_cast h)
  rw [hround, zpow_add₀ two_ne_zero, mul_comm, zpow_natCast]
  gcongr
  exact_mod_cast hnearest

theorem le_roundQuotient {k : ℤ} (hk : -1074 ≤ k) (h : (2 : ℚ) ^ k ≤ n / d) : 2 ^ k ≤ roundQuotient n d := by
  obtain ⟨N, D, hD, hscaled, hround⟩ := exists_scaled (n := n) hd
  -- The first binary digit of the quotient is kept.
  have hlog := (two_zpow_le_div_iff_le_log hn hd k).mp h
  refine (zpow_le_zpow_right₀ one_le_two hlog).trans ?_
  have hself := (two_zpow_le_div_iff_le_log hn hd _).mpr (le_refl (Int.log 2 ((n : ℚ) / d)))
  obtain ⟨j, hj⟩ : ∃ j : ℕ, Int.log 2 ((n : ℚ) / d) = exponent n d + j :=
    ⟨(Int.log 2 ((n : ℚ) / d) - exponent n d).toNat, by rw [exponent_eq hn hd]; omega⟩
  rw [hj] at hself ⊢
  rw [zpow_add₀ two_ne_zero, mul_comm, ← le_div_iff₀ (by positivity), ← hscaled,
    le_div_iff₀ (by exact_mod_cast hD), zpow_natCast, mul_comm] at hself
  have hnearest : 2 ^ j ≤ nearest N D := le_nearest hD (by exact_mod_cast hself)
  rw [hround, zpow_add₀ two_ne_zero, mul_comm, zpow_natCast]
  gcongr
  exact_mod_cast hnearest

/-- The first quotient that is out of range: half a place below the first power of two that the
format has no exponent for. -/
theorem two_pow_le_roundQuotient_iff :
    (2 : ℚ) ^ 1024 ≤ roundQuotient n d ↔ (2 : ℚ) ^ 1024 - 2 ^ 970 ≤ n / d := by
  obtain ⟨u, hu, h970, h971, h1023, h1024, hend⟩ := exists_half_place
  rw [h970, hend]
  rcases lt_or_ge ((n : ℚ) / d) ((2 : ℚ) ^ (1023 : ℤ)) with hlow | hlow
  · have hround := roundQuotient_le hn hd (by decide) hlow.le
    rw [h1023] at hlow hround
    constructor <;> intro h <;> linarith only [hu, hlow, hround, h]
  rcases lt_or_ge ((n : ℚ) / d) ((2 : ℚ) ^ (1024 : ℤ)) with hhigh | hhigh
  · -- The last number in range is odd, so half a place above it is rounded up.
    have hlog : Int.log 2 ((n : ℚ) / d) = 1023 := by
      have h₁ := (two_zpow_le_div_iff_le_log hn hd 1023).mp hlow
      have h₂ := mt (two_zpow_le_div_iff_le_log hn hd 1024).mpr (not_le.mpr hhigh)
      omega
    have he : exponent n d = 971 := by rw [exponent_eq hn hd, hlog]; rfl
    obtain ⟨N, D, hD, hscaled, hround⟩ := exists_scaled (n := n) hd
    rw [he, h971] at hscaled hround
    have hnearest : 2 ^ 54 * u ≤ roundQuotient n d ↔ 2 ^ 53 - 1 < nearest N D := by
      have hplaces : (2 : ℚ) ^ 54 * u = (2 ^ 53 : ℕ) * (2 * u) := by push_cast; ring
      rw [hround, hplaces, mul_le_mul_iff_left₀ (mul_pos two_pos hu), Nat.cast_le]
      omega
    have hsides : D * (2 * (2 ^ 53 - 1) + 1) ≤ 2 * N ↔ ((2 * (2 ^ 53 - 1) + 1 : ℕ) : ℚ) ≤ 2 * (N / D) := by
      rw [← mul_div_assoc, le_div_iff₀ (by exact_mod_cast hD), mul_comm]
      exact_mod_cast Iff.rfl
    have hodd : ((2 * (2 ^ 53 - 1) + 1 : ℕ) : ℚ) = 2 ^ 54 - 1 := by norm_num
    rw [hnearest, lt_nearest_iff hD (by decide), hsides, hodd, hscaled, mul_div_assoc',
      mul_div_mul_left _ _ two_ne_zero, le_div_iff₀ hu, sub_mul, one_mul]
  · have hround := le_roundQuotient hn hd (by decide) hhigh
    rw [h1024] at hhigh hround
    constructor <;> intro h <;> linarith only [hu, hhigh, hround, h]

end

/-- **Rounding keeps the order** of positive quotients. -/
theorem roundQuotient_mono {n d m k : ℕ} (hn : 0 < n) (hd : 0 < d) (hm : 0 < m) (hk : 0 < k)
    (h : (n : ℚ) / d ≤ m / k) : roundQuotient n d ≤ roundQuotient m k := by
  have hlog : Int.log 2 ((n : ℚ) / d) ≤ Int.log 2 ((m : ℚ) / k) := Int.log_mono_right (by positivity) h
  have he := exponent_eq hn hd
  have he' := exponent_eq hm hk
  have hle : exponent n d ≤ exponent m k := by omega
  rcases hle.lt_or_eq with hlt | heq
  · -- The power of two that the larger one starts with lies between them.
    have hpower : (n : ℚ) / d ≤ 2 ^ Int.log 2 ((m : ℚ) / k) := by
      refine le_of_not_ge fun hge => ?_
      have hfirst := (two_zpow_le_div_iff_le_log hn hd _).mp hge
      omega
    exact (roundQuotient_le hn hd (by omega) hpower).trans
      (le_roundQuotient hm hk (by omega) ((two_zpow_le_div_iff_le_log hm hk _).mpr le_rfl))
  · obtain ⟨N, D, hD, hscaled, hround⟩ := exists_scaled (n := n) hd
    obtain ⟨M, K, hK, hscaled', hround'⟩ := exists_scaled (n := m) hk
    have hunits : (N : ℚ) / D ≤ M / K := by
      rw [hscaled, hscaled', heq]
      gcongr
    rw [div_le_div_iff₀ (by exact_mod_cast hD) (by exact_mod_cast hK)] at hunits
    rw [hround, hround', heq]
    gcongr
    exact nearest_mono hD hK (by exact_mod_cast hunits)

theorem roundQuotient_nonneg {n d : ℕ} (hd : 0 < d) : 0 ≤ roundQuotient n d := by
  obtain ⟨N, D, -, -, hround⟩ := exists_scaled (n := n) hd
  rw [hround]
  positivity

/-! ## Rounding a rational -/

theorem natAbs_num_div_den (q : ℚ) : (q.num.natAbs : ℚ) / q.den = |q| := by
  rw [Nat.cast_natAbs, Int.cast_abs]
  conv_rhs => rw [← Rat.num_div_den q]
  rw [abs_div, Nat.abs_cast]

theorem cast_pow_two (k : ℕ) : ((Nat.pow 2 k : ℕ) : ℚ) = 2 ^ k := Nat.cast_pow 2 k

theorem ofRat_of_ne_zero {q : ℚ} (hq : q ≠ 0) :
    ((2 : ℚ) ^ 1024 ≤ roundQuotient q.num.natAbs q.den → ofRat q = infinite (q.num < 0)) ∧
      (¬ (2 : ℚ) ^ 1024 ≤ roundQuotient q.num.natAbs q.den → ofRat q =
        finite (if q.num < 0 then -roundQuotient q.num.natAbs q.den else roundQuotient q.num.natAbs q.den)) := by
  unfold ofRat
  rw [if_neg (Rat.num_ne_zero.mpr hq)]
  simp only [cast_pow_two, -Nat.reducePow]
  exact ⟨fun h => if_pos h, fun h => if_neg h⟩

theorem ofRat_cases (q : ℚ) :
    |q| < 2 ^ 1024 - 2 ^ 970 ∧ (∃ x, ofRat q = finite x) ∨
      (2 : ℚ) ^ 1024 - 2 ^ 970 ≤ |q| ∧ ofRat q = infinite (q.num < 0) := by
  by_cases hq : q = 0
  · left
    obtain ⟨u, hu, h970, -, -, -, hend⟩ := exists_half_place
    rw [hq, abs_zero, h970, hend]
    exact ⟨by linarith only [hu], 0, rfl⟩
  · have hround := two_pow_le_roundQuotient_iff (Int.natAbs_pos.mpr (Rat.num_ne_zero.mpr hq)) q.den_pos
    rw [natAbs_num_div_den] at hround
    rw [← not_le, ← hround]
    by_cases h : (2 : ℚ) ^ 1024 ≤ roundQuotient q.num.natAbs q.den
    · exact Or.inr ⟨h, (ofRat_of_ne_zero hq).1 h⟩
    · exact Or.inl ⟨h, _, (ofRat_of_ne_zero hq).2 h⟩

/-- **Integers out of range.** -/
theorem ofInt?_eq_none_iff (n : ℤ) : ofInt? n = none ↔ 2 ^ 1024 - 2 ^ 970 ≤ |n| := by
  have hcast : (2 : ℚ) ^ 1024 - 2 ^ 970 ≤ |(n : ℚ)| ↔ 2 ^ 1024 - 2 ^ 970 ≤ |n| := by exact_mod_cast Iff.rfl
  rw [ofInt?, ← hcast]
  rcases ofRat_cases n with ⟨hlt, x, hx⟩ | ⟨hle, hx⟩
  · simp only [hx, reduceCtorEq, false_iff, not_le, hlt]
  · simp only [hx, hle]

theorem ofRat_one : ofRat 1 = finite 1 := by decide +kernel

/-! ## The order of numbers -/

theorem finite_le_iff {x y : ℚ} : (finite x).le (finite y) = true ↔ x ≤ y := by
  simp [le, lt, le_iff_lt_or_eq]

theorem exists_ofRat_of_le {q : ℚ} (h₀ : 0 ≤ q) (h : q ≤ 2 ^ 53) : ∃ x, ofRat q = finite x := by
  rcases ofRat_cases q with ⟨-, hx⟩ | ⟨hend, -⟩
  · exact hx
  · obtain ⟨u, hu, h970, -, -, -, h1024⟩ := exists_half_place
    have hone : 1 ≤ u := by rw [← h970]; exact one_le_pow₀ one_le_two
    rw [abs_of_nonneg h₀, h970, h1024] at hend
    linarith only [h, hend, hone]

theorem ofRat_of_nonneg {q x : ℚ} (h : 0 ≤ q) (hx : ofRat q = finite x) :
    q = 0 ∧ x = 0 ∨ 0 < q.num.natAbs ∧ x = roundQuotient q.num.natAbs q.den := by
  by_cases hq : q = 0
  · rw [hq] at hx
    exact .inl ⟨hq, (finite.inj hx).symm⟩
  · right
    refine ⟨Int.natAbs_pos.mpr (Rat.num_ne_zero.mpr hq), ?_⟩
    have hpos : ¬ q.num < 0 := not_lt.mpr (Rat.num_nonneg.mpr h)
    by_cases hend : (2 : ℚ) ^ 1024 ≤ roundQuotient q.num.natAbs q.den
    · rw [(ofRat_of_ne_zero hq).1 hend] at hx
      cases hx
    · rw [(ofRat_of_ne_zero hq).2 hend, if_neg hpos] at hx
      exact (finite.inj hx).symm

theorem ofRat_nonneg {q x : ℚ} (h : 0 ≤ q) (hx : ofRat q = finite x) : 0 ≤ x := by
  rcases ofRat_of_nonneg h hx with ⟨-, rfl⟩ | ⟨-, rfl⟩
  · exact le_refl 0
  · exact roundQuotient_nonneg q.den_pos

theorem ofRat_mono {a b x y : ℚ} (h₀ : 0 ≤ a) (h : a ≤ b) (hx : ofRat a = finite x) (hy : ofRat b = finite y) :
    x ≤ y := by
  rcases ofRat_of_nonneg h₀ hx with ⟨-, rfl⟩ | ⟨hnum, rfl⟩
  · exact ofRat_nonneg (h₀.trans h) hy
  rcases ofRat_of_nonneg (h₀.trans h) hy with ⟨rfl, -⟩ | ⟨hnum', rfl⟩
  · rw [le_antisymm h h₀] at hnum
    cases hnum
  · refine roundQuotient_mono hnum a.den_pos hnum' b.den_pos ?_
    rw [natAbs_num_div_den, natAbs_num_div_den, abs_of_nonneg h₀, abs_of_nonneg (h₀.trans h)]
    exact h

theorem ofRat_le_one {q : ℚ} (h₀ : 0 ≤ q) (h₁ : q ≤ 1) : ∃ x ≤ 1, ofRat q = finite x := by
  obtain ⟨x, hx⟩ := exists_ofRat_of_le h₀ (h₁.trans (one_le_pow₀ one_le_two))
  exact ⟨x, ofRat_mono h₀ h₁ hx ofRat_one, hx⟩

theorem roundHalfUp?_eq_some_iff {x : ℚ} {n : ℤ} :
    (finite x).roundHalfUp? = some n ↔ ∃ z, ofRat (x + 1 / 2) = finite z ∧ z.floor = n := by
  have hhalf : (finite x).roundHalfUp? = (ofRat (x + 1 / 2)).floor? := by
    rw [roundHalfUp?, map, Rat.mkRat_eq_div]; norm_num
  rw [hhalf]
  cases ofRat (x + 1 / 2) <;> simp [floor?]

theorem roundHalfUp?_mono {x y : ℚ} {m n : ℤ} (h₀ : 0 ≤ x) (h : x ≤ y) (hm : (finite x).roundHalfUp? = some m)
    (hn : (finite y).roundHalfUp? = some n) : m ≤ n := by
  obtain ⟨z, hz, rfl⟩ := roundHalfUp?_eq_some_iff.mp hm
  obtain ⟨w, hw, rfl⟩ := roundHalfUp?_eq_some_iff.mp hn
  exact Int.floor_mono (ofRat_mono (by positivity) (by gcongr) hz hw)

end AgentRules.Binary64
