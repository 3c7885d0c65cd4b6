import Mathlib

/-!
# Rounding to a binary format

A binary format keeps `frac` digits after the leading one and none below `2 ^ emin`. A number is
rounded to it by a rule for integers: the quotient by the last place that the format keeps at that
size becomes an integer. The rule need not be known. If it is monotone and leaves integers alone,
then so is the rounding, up to where the exponents change (`round_mono`), it leaves alone what
fits into the format, its own results among them (`round_round`), and it is off by one unit in the
last place at most (`abs_round_sub_le`).

There is no largest exponent here, and no sign.
-/

set_option autoImplicit false

namespace Binary

/-- A rule that rounds to integers. -/
structure Rule (toNat : ℚ → ℕ) : Prop where
  mono : ∀ {a b : ℚ}, 0 ≤ a → a ≤ b → toNat a ≤ toNat b
  exact : ∀ n : ℕ, toNat n = n

/-- The exponent of the last place that the format keeps of `q`. -/
def lastPlace (frac : ℕ) (emin : ℤ) (q : ℚ) : ℤ := max (Int.log 2 q - frac) emin

/-- `q`, which is not negative, rounded to the format. -/
def round (toNat : ℚ → ℕ) (frac : ℕ) (emin : ℤ) (q : ℚ) : ℚ :=
  toNat (q / 2 ^ lastPlace frac emin q) * 2 ^ lastPlace frac emin q

/-- `r` has so few digits that it fits into the format. -/
def Fits (frac : ℕ) (emin : ℤ) (r : ℚ) : Prop :=
  ∃ (n : ℕ) (u : ℤ), emin ≤ u ∧ n ≤ 2 ^ (frac + 1) ∧ r = n * 2 ^ u

variable {toNat : ℚ → ℕ} {frac : ℕ} {emin : ℤ} {a b q : ℚ} {k : ℤ}

theorem round_nonneg : 0 ≤ round toNat frac emin q := by
  unfold round
  positivity

theorem lt_two_zpow_log (q : ℚ) : q < 2 ^ (Int.log 2 q + 1) :=
  Int.lt_zpow_succ_log_self (by norm_num) q

theorem two_zpow_log_le (hq : 0 < q) : (2 : ℚ) ^ Int.log 2 q ≤ q :=
  Int.zpow_log_le_self (by norm_num) hq

theorem two_zpow_add (u : ℤ) (d : ℕ) : (2 : ℚ) ^ (u + d) = (2 ^ d : ℕ) * 2 ^ u := by
  rw [zpow_add₀ (by norm_num), zpow_natCast, mul_comm]
  norm_cast

/-- A power of two counts in units of a smaller one. -/
theorem exists_natCast_two_zpow {u : ℤ} (h : u ≤ k) : ∃ n : ℕ, (2 : ℚ) ^ k / 2 ^ u = n := by
  obtain ⟨d, rfl⟩ := Int.le.dest h
  exact ⟨2 ^ d, by rw [two_zpow_add, mul_div_cancel_right₀ _ (by positivity)]⟩

/-- What is a whole number of last places stays. -/
theorem Rule.round_eq_self (hrule : Rule toNat) {n : ℕ} (h : q = n * 2 ^ lastPlace frac emin q) :
    round toNat frac emin q = q := by
  have hquot : q / 2 ^ lastPlace frac emin q = n := by
    rw [div_eq_iff (by positivity)]
    exact h
  rw [round, hquot, hrule.exact]
  exact h.symm

@[simp] theorem Rule.round_zero (hrule : Rule toNat) : round toNat frac emin 0 = 0 :=
  hrule.round_eq_self (n := 0) (by simp)

/-! ## Monotony -/

/-- Rounding does not get past a power of two that the format has at this size. -/
theorem Rule.le_round (hrule : Rule toNat) (hlast : lastPlace frac emin q ≤ k)
    (h : (2 : ℚ) ^ k ≤ q) : (2 : ℚ) ^ k ≤ round toNat frac emin q := by
  obtain ⟨n, hn⟩ := exists_natCast_two_zpow hlast
  have hquot : (n : ℚ) ≤ q / 2 ^ lastPlace frac emin q := by
    rw [← hn]
    gcongr
  have hle := hrule.mono (by positivity) hquot
  rw [hrule.exact] at hle
  rw [round, ← div_le_iff₀ (by positivity), hn]
  exact_mod_cast hle

theorem Rule.round_le (hrule : Rule toNat) (hq : 0 ≤ q) (hlast : lastPlace frac emin q ≤ k)
    (h : q ≤ 2 ^ k) : round toNat frac emin q ≤ 2 ^ k := by
  obtain ⟨n, hn⟩ := exists_natCast_two_zpow hlast
  have hquot : q / 2 ^ lastPlace frac emin q ≤ n := by
    rw [← hn]
    gcongr
  have hle := hrule.mono (by positivity) hquot
  rw [hrule.exact] at hle
  rw [round, ← le_div_iff₀ (by positivity), hn]
  exact_mod_cast hle

theorem Rule.round_mono (hrule : Rule toNat) (ha : 0 ≤ a) (hab : a ≤ b) :
    round toNat frac emin a ≤ round toNat frac emin b := by
  rcases ha.eq_or_lt with rfl | hpos
  · rw [hrule.round_zero]
    exact round_nonneg
  have hlog : Int.log 2 a ≤ Int.log 2 b := Int.log_mono_right hpos hab
  have hlast : lastPlace frac emin a ≤ lastPlace frac emin b :=
    max_le_max_right _ (Int.sub_le_sub_right hlog _)
  rcases hlast.eq_or_lt with heq | hlt
  · -- the same last place: the rule is monotone
    rw [round, round, heq]
    have hquot : a / 2 ^ lastPlace frac emin b ≤ b / 2 ^ lastPlace frac emin b := by gcongr
    have hle := hrule.mono (by positivity) hquot
    gcongr
  · -- a power of two stands between them
    have hplace : lastPlace frac emin b = Int.log 2 b - frac := by
      refine max_eq_left (not_lt.mp fun hsmall => ?_)
      have hmin : lastPlace frac emin b = emin := max_eq_right hsmall.le
      have : emin ≤ lastPlace frac emin a := le_max_right _ _
      omega
    have hstep : Int.log 2 a < Int.log 2 b := by
      refine lt_of_le_of_ne hlog fun heq => ?_
      rw [lastPlace, lastPlace, heq] at hlt
      exact lt_irrefl _ hlt
    have hbelow : a ≤ 2 ^ Int.log 2 b :=
      (lt_two_zpow_log a).le.trans (zpow_le_zpow_right₀ (by norm_num) (by omega))
    calc round toNat frac emin a ≤ 2 ^ Int.log 2 b := hrule.round_le ha (by omega) hbelow
      _ ≤ round toNat frac emin b := hrule.le_round (by omega) (two_zpow_log_le (hpos.trans_le hab))

/-! ## What fits -/

theorem Rule.fits_round (hrule : Rule toNat) (hq : 0 ≤ q) :
    Fits frac emin (round toNat frac emin q) := by
  refine ⟨_, lastPlace frac emin q, le_max_right _ _, ?_, rfl⟩
  have hdigits : Int.log 2 q + 1 ≤ lastPlace frac emin q + (frac + 1 : ℕ) := by
    have := le_max_left (Int.log 2 q - frac) emin
    rw [lastPlace]
    omega
  have hquot : q / 2 ^ lastPlace frac emin q ≤ (2 ^ (frac + 1) : ℕ) := by
    rw [div_le_iff₀ (by positivity)]
    calc q ≤ 2 ^ (Int.log 2 q + 1) := (lt_two_zpow_log q).le
      _ ≤ 2 ^ (lastPlace frac emin q + (frac + 1 : ℕ)) :=
        zpow_le_zpow_right₀ (by norm_num) hdigits
      _ = (2 ^ (frac + 1) : ℕ) * 2 ^ lastPlace frac emin q := two_zpow_add _ _
  have hle := hrule.mono (by positivity) hquot
  rwa [hrule.exact] at hle

/-- What fits is a whole number of units that are not below its last place. -/
theorem Fits.exists_lastPlace_le {r : ℚ} (h : Fits frac emin r) (hpos : 0 < r) :
    ∃ (n : ℕ) (u : ℤ), lastPlace frac emin r ≤ u ∧ r = n * 2 ^ u := by
  obtain ⟨n, u, hu, hn, hr⟩ := h
  rcases hn.eq_or_lt with rfl | hlt
  · -- a power of two has its last place one higher, and half as many units there
    refine ⟨2 ^ frac, u + 1, max_le ?_ (by omega), ?_⟩
    · have hexp : r = ((2 : ℕ) : ℚ) ^ (u + (frac + 1 : ℕ)) := by
        rw [hr, Nat.cast_ofNat, two_zpow_add]
      rw [hexp, Int.log_zpow (by norm_num)]
      omega
    · rw [hr, zpow_add₀ (by norm_num)]
      push_cast
      ring
  · refine ⟨n, u, max_le ?_ hu, hr⟩
    have hbelow : r < 2 ^ (u + (frac + 1 : ℕ)) := by
      have hcast : (n : ℚ) < (2 ^ (frac + 1) : ℕ) := by exact_mod_cast hlt
      calc r = n * 2 ^ u := hr
        _ < (2 ^ (frac + 1) : ℕ) * 2 ^ u := by gcongr
        _ = 2 ^ (u + (frac + 1 : ℕ)) := (two_zpow_add _ _).symm
    have hlog := (Int.lt_zpow_iff_log_lt (b := 2) (by norm_num) hpos).mp (by exact_mod_cast hbelow)
    omega

/-- Rounding leaves alone what fits. -/
theorem Rule.round_of_fits (hrule : Rule toNat) {r : ℚ} (h : Fits frac emin r) :
    round toNat frac emin r = r := by
  have hnonneg : 0 ≤ r := by
    obtain ⟨n, u, -, -, rfl⟩ := h
    positivity
  rcases hnonneg.eq_or_lt with rfl | hpos
  · exact hrule.round_zero
  obtain ⟨n, u, hplace, hr⟩ := h.exists_lastPlace_le hpos
  obtain ⟨d, hd⟩ := exists_natCast_two_zpow hplace
  refine hrule.round_eq_self (n := n * d) ?_
  rw [Nat.cast_mul, mul_assoc, ← hd, div_mul_cancel₀ _ (by positivity)]
  exact hr

/-- Rounding once is enough. -/
theorem Rule.round_round (hrule : Rule toNat) (hq : 0 ≤ q) :
    round toNat frac emin (round toNat frac emin q) = round toNat frac emin q :=
  hrule.round_of_fits (hrule.fits_round hq)

/-! ## The error -/

theorem Rule.abs_toNat_sub_le (hrule : Rule toNat) {x : ℚ} (hx : 0 ≤ x) :
    |(toNat x : ℚ) - x| ≤ 1 := by
  have hlow := hrule.mono (by positivity) (Nat.floor_le hx)
  have hhigh := hrule.mono hx (Nat.lt_floor_add_one x).le
  rw [hrule.exact] at hlow
  rw [← Nat.cast_succ, hrule.exact] at hhigh
  have hlow' : (⌊x⌋₊ : ℚ) ≤ toNat x := by exact_mod_cast hlow
  have hhigh' : (toNat x : ℚ) ≤ ⌊x⌋₊ + 1 := by exact_mod_cast hhigh
  have := Nat.floor_le hx
  have := Nat.lt_floor_add_one x
  exact abs_le.mpr ⟨by linarith, by linarith⟩

/-- Rounding is off by a unit in the last place at most. -/
theorem Rule.abs_round_sub_le (hrule : Rule toNat) (hq : 0 ≤ q) :
    |round toNat frac emin q - q| ≤ q / 2 ^ frac + 2 ^ emin := by
  rcases hq.eq_or_lt with rfl | hpos
  · rw [hrule.round_zero, sub_zero, abs_zero]
    positivity
  have hunit : (0 : ℚ) < 2 ^ lastPlace frac emin q := by positivity
  have herr := hrule.abs_toNat_sub_le (x := q / 2 ^ lastPlace frac emin q) (by positivity)
  have hplace : (2 : ℚ) ^ lastPlace frac emin q ≤ q / 2 ^ frac + 2 ^ emin := by
    rcases max_choice (Int.log 2 q - frac) emin with h | h
    · have hlog : (2 : ℚ) ^ (Int.log 2 q - frac) ≤ q / 2 ^ frac := by
        rw [zpow_sub₀ (by norm_num), zpow_natCast]
        have := two_zpow_log_le hpos
        gcongr
      have : (0 : ℚ) < 2 ^ emin := by positivity
      rw [lastPlace, h]
      linarith
    · rw [lastPlace, h]
      exact le_add_of_nonneg_left (by positivity)
  calc |round toNat frac emin q - q|
      = |(toNat (q / 2 ^ lastPlace frac emin q) : ℚ) - q / 2 ^ lastPlace frac emin q|
          * 2 ^ lastPlace frac emin q := by
        rw [← abs_of_pos hunit, ← abs_mul, abs_of_pos hunit, sub_mul,
          div_mul_cancel₀ _ hunit.ne', round]
    _ ≤ 1 * 2 ^ lastPlace frac emin q := by gcongr
    _ ≤ q / 2 ^ frac + 2 ^ emin := by rwa [one_mul]

end Binary
