import Cryptomeria.Lob.Book

/-!
# The window of a price

What a percentage window keeps under rounding. Rounding is monotone, and between 0 and 100 percent
nothing overflows, so the window of a worse price is wider (`Side.inWindow_of_isLE`) and a price is
in its own window (`Side.inWindow_self`), on doubles as in exact arithmetic. The two arithmetics
agree but for the edge: the window on doubles is wider than the exact one of a slightly smaller
percentage and narrower than that of a slightly larger one (`Side.inWindow_double_of_exact`,
`Side.inWindow_exact_of_double`).
-/

set_option autoImplicit false

namespace Cryptomeria

/-! ## The two arithmetics -/

namespace Arithmetic

variable {ar : Arithmetic} {a b : F64}

theorem round_mono (h : a ≤ b) : ar.round a ≤ ar.round b := by
  cases ar with
  | double => exact F64.round_mono h
  | exact => exact h

@[simp] theorem round_round (a : F64) : ar.round (ar.round a) = ar.round a := by
  cases ar with
  | double => exact F64.round_round a
  | exact => rfl

@[simp] theorem round_eq_nan : ar.round a = .nan ↔ a = .nan := by
  cases ar with
  | double => exact F64.round_eq_nan
  | exact => exact Iff.rfl

theorem round_ne_nan : ar.round a ≠ .nan ↔ a ≠ .nan := round_eq_nan.not

/-- A small integer is a double. -/
theorem round_small (ar : Arithmetic) : ∀ n ≤ 100, ar.round (.fin (n : ℕ)) = .fin n := by
  cases ar with
  | double => decide +kernel
  | exact => exact fun _ _ => rfl

/-- What lies between two small integers is rounded to something between them and close by. -/
theorem exists_round_fin (ar : Arithmetic) {l m : ℕ} (hm : m ≤ 100) {q : ℚ} (hl : l ≤ q)
    (hq : q ≤ m) : ∃ r : ℚ, ar.round (.fin q) = .fin r ∧ l ≤ r ∧ r ≤ m ∧
      |r - q| ≤ (m + 1) / 2 ^ 52 := by
  have hlm : l ≤ m := by exact_mod_cast hl.trans hq
  have hlow := @round_mono ar _ _ (F64.fin_le_fin.mpr hl)
  have hhigh := @round_mono ar _ _ (F64.fin_le_fin.mpr hq)
  rw [ar.round_small l (hlm.trans hm)] at hlow
  rw [ar.round_small m hm] at hhigh
  cases hr : ar.round (.fin q) with
  | fin r =>
    rw [hr, F64.fin_le_fin] at hlow hhigh
    refine ⟨r, rfl, hlow, hhigh, ?_⟩
    cases ar with
    | exact =>
      obtain rfl := F64.fin.inj hr
      rw [sub_self, abs_zero]
      positivity
    | double =>
      have hq0 : 0 ≤ q := (Nat.cast_nonneg l).trans hl
      have htiny : (2 : ℚ) ^ (-1074 : ℤ) ≤ 2 ^ (-52 : ℤ) :=
        zpow_le_zpow_right₀ (by norm_num) (by norm_num)
      rw [← F64.nearest_of_round hr]
      calc |F64.nearest q - q| ≤ q / 2 ^ 52 + 2 ^ (-1074 : ℤ) := F64.abs_nearest_sub_le hq0
        _ ≤ m / 2 ^ 52 + 2 ^ (-52 : ℤ) := by gcongr
        _ = (m + 1) / 2 ^ 52 := by rw [add_div, zpow_neg, zpow_ofNat, one_div]
  | negInf => simp [hr, F64.le_negInf] at hlow
  | posInf => simp [hr, F64.posInf_le] at hhigh
  | nan => simp [hr, F64.nan_le] at hhigh

theorem gt_zero_of_round (h : (ar.round a).IsPos) : a.gt F64.zero = true := by
  obtain ⟨r, hr, hpos⟩ := F64.isPos_iff.mp h
  have hne : a ≠ .nan := by
    rintro rfl
    simp [ar.round_eq_nan.mpr rfl] at hr
  have hlt : F64.zero < a := by
    by_contra hle
    have hround := @round_mono ar _ _ (not_lt.mp hle)
    rw [show ar.round F64.zero = F64.zero from ar.round_small 0 (by norm_num), hr] at hround
    exact absurd (F64.fin_le_fin.mp hround) (not_le.mpr hpos)
  have hlt' : F64.zero.lt a = true := by simp [F64.lt, hne, hlt, show F64.zero ≠ .nan by decide]
  exact hlt'

end Arithmetic

namespace F64

theorem zero_le_of_gt_zero {a : F64} (h : a.gt zero = true) : zero ≤ a := by
  simp only [gt, lt, Bool.and_eq_true, decide_eq_true_eq] at h
  exact h.2.le

/-- What is not negative: zero, a positive number or infinity. -/
theorem zero_le_iff {a : F64} (hne : a ≠ nan) : zero ≤ a ↔ a = posInf ∨ ∃ q, a = fin q ∧ 0 ≤ q := by
  cases a with
  | negInf => simp [le_negInf, zero]
  | fin q => simp [zero]
  | posInf => simpa using le_posInf (by simp [zero])
  | nan => exact absurd rfl hne

theorem mul_nan {a b : F64} (h : a = nan) : a.mul b = nan := by
  rw [h]
  rfl

theorem posInf_mul_pos {f : ℚ} (hf : 0 < f) : posInf.mul (fin f) = posInf := by
  have hsign : SignType.sign f = 1 := sign_pos hf
  simp only [mul, sign, hsign]
  rfl

theorem posInf_mul_zero : posInf.mul (fin 0) = nan := by
  simp [mul, sign, infOfSign]

/-- A factor that is not negative keeps the order, where it gives a number. -/
theorem mul_fin_mono {a b : F64} {f : ℚ} (ha : zero ≤ a) (hab : a ≤ b) (hf : 0 ≤ f)
    (hnan : b.mul (fin f) ≠ nan) : a.mul (fin f) ≤ b.mul (fin f) := by
  have hb : b ≠ nan := fun h => hnan (mul_nan h)
  have hane : a ≠ nan := fun h => hb (nan_le.mp (h ▸ hab))
  rcases (zero_le_iff hane).mp ha with rfl | ⟨p, rfl, -⟩
  · rcases posInf_le.mp hab with rfl | rfl
    · exact le_refl _
    · exact absurd rfl hb
  · rcases (zero_le_iff hb).mp (ha.trans hab) with rfl | ⟨q, rfl, -⟩
    · have hpos : 0 < f := by
        refine hf.lt_of_ne ?_
        rintro rfl
        exact hnan posInf_mul_zero
      rw [posInf_mul_pos hpos]
      exact le_posInf (by simp)
    · exact fin_le_fin.mpr (mul_le_mul_of_nonneg_right (fin_le_fin.mp hab) hf)

theorem mul_fin_ne_nan {a : F64} {f : ℚ} (ha : zero ≤ a) (hne : a ≠ nan) (hf : 0 < f) :
    a.mul (fin f) ≠ nan := by
  rcases (zero_le_iff hne).mp ha with rfl | ⟨q, rfl, -⟩
  · rw [posInf_mul_pos hf]
    simp
  · simp

end F64

/-! ## Windows -/

namespace Side

variable {s : Side} {ar : Arithmetic} {p : ℚ} {q q' r : F64}

/-- What the best price is multiplied with, in exact arithmetic. -/
def factor (s : Side) (p : ℚ) : ℚ :=
  match s with
  | .bid => 1 - p / 100
  | .ask => 1 + p / 100

/-- The threshold is the best price times a factor, which is close to the exact one and, like it, on
the worse side of one. -/
theorem exists_factor (h0 : 0 ≤ p) (h100 : p ≤ 100) (ar : Arithmetic) (s : Side) :
    ∃ f : ℚ, (∀ best, s.threshold ar (.fin p) best = ar.mul (ar.round best) (.fin f)) ∧
      |f - s.factor p| ≤ 7 / 2 ^ 52 ∧
      match s with
      | .bid => 0 ≤ f ∧ f ≤ 1
      | .ask => 1 ≤ f := by
  obtain ⟨pct, hpct, hpct0, hpct100, hpcterr⟩ := @Arithmetic.exists_round_fin ar 0 100
    (by norm_num) p (by simpa using h0) (by simpa using h100)
  push_cast at hpct0 hpct100 hpcterr
  obtain ⟨x, hx, hx0, hx1, hxerr⟩ := @Arithmetic.exists_round_fin ar 0 1 (by norm_num) (pct / 100)
    (by push_cast; positivity) (by push_cast; linarith)
  push_cast at hx0 hx1 hxerr
  rw [abs_le] at hpcterr hxerr
  have hdiv : ar.div (ar.round (.fin p)) (.fin 100) = .fin x := by
    rw [hpct, Arithmetic.div, F64.div_fin (by norm_num), hx]
  cases s with
  | bid =>
    obtain ⟨f, hf, hf0, hf1, hferr⟩ := @Arithmetic.exists_round_fin ar 0 1 (by norm_num) (1 - x)
      (by push_cast; linarith) (by push_cast; linarith)
    push_cast at hf0 hf1 hferr
    rw [abs_le] at hferr
    refine ⟨f, fun best => ?_, abs_le.mpr ?_, hf0, hf1⟩
    · rw [threshold, LobFilter.bidThreshold, hdiv, Arithmetic.sub, F64.sub_fin, hf]
    · rw [factor]
      constructor <;> linarith
  | ask =>
    obtain ⟨f, hf, hf1, -, hferr⟩ := @Arithmetic.exists_round_fin ar 1 2 (by norm_num) (1 + x)
      (by push_cast; linarith) (by push_cast; linarith)
    push_cast at hf1 hferr
    rw [abs_le] at hferr
    refine ⟨f, fun best => ?_, abs_le.mpr ?_, hf1⟩
    · rw [threshold, LobFilter.askThreshold, hdiv, Arithmetic.add, F64.add_fin, hf]
    · rw [factor]
      constructor <;> linarith

theorem inWindow_iff {pct : F64} : s.inWindow ar pct q r = true ↔
    r ≠ .nan ∧ s.threshold ar pct q ≠ .nan ∧
      match s with
      | .bid => s.threshold ar pct q ≤ ar.round r
      | .ask => ar.round r ≤ s.threshold ar pct q := by
  cases s with
  | bid =>
    simp only [inWindow, within, F64.ge, F64.le, Bool.and_eq_true, bne_iff_ne, decide_eq_true_eq,
      ne_eq, Arithmetic.round_eq_nan]
    tauto
  | ask =>
    simp only [inWindow, within, F64.le, Bool.and_eq_true, bne_iff_ne, decide_eq_true_eq, ne_eq,
      Arithmetic.round_eq_nan]
    tauto

/-- A positive price is rounded to something that is not negative. -/
theorem zero_le_round (hq : q.gt F64.zero = true) : F64.zero ≤ ar.round q := by
  have hround := @Arithmetic.round_mono ar _ _ (F64.zero_le_of_gt_zero hq)
  rwa [show ar.round F64.zero = F64.zero from ar.round_small 0 (by norm_num)] at hround

/-- The window of a worse price is wider. -/
theorem inWindow_of_isLE (h0 : 0 ≤ p) (h100 : p ≤ 100) (hq : q.gt F64.zero = true)
    (hq' : q'.gt F64.zero = true) (hle : (s.cmp q q').isLE)
    (hwin : s.inWindow ar (.fin p) q r = true) : s.inWindow ar (.fin p) q' r = true := by
  obtain ⟨f, hfactor, -, hf⟩ := exists_factor h0 h100 ar s
  rw [inWindow_iff, hfactor, Arithmetic.mul, Arithmetic.round_ne_nan] at hwin ⊢
  obtain ⟨hr, hnan, hin⟩ := hwin
  cases s with
  | bid =>
    have hmul : (ar.round q').mul (.fin f) ≤ (ar.round q).mul (.fin f) :=
      F64.mul_fin_mono (zero_le_round hq') (Arithmetic.round_mono (Side.isLE_cmp.mp hle)) hf.1 hnan
    refine ⟨hr, fun h => hnan (F64.nan_le.mp (h ▸ hmul)), ?_⟩
    exact (Arithmetic.round_mono hmul).trans hin
  | ask =>
    have hpos : 0 < f := lt_of_lt_of_le (by norm_num) hf
    have hne := (@Arithmetic.round_ne_nan ar _).mpr (F64.ne_nan_of_gt_zero hq')
    have hnan' := F64.mul_fin_ne_nan (zero_le_round hq') hne hpos
    have hmul : (ar.round q).mul (.fin f) ≤ (ar.round q').mul (.fin f) :=
      F64.mul_fin_mono (zero_le_round hq) (Arithmetic.round_mono (Side.isLE_cmp.mp hle)) hpos.le
        hnan'
    exact ⟨hr, hnan', hin.trans (Arithmetic.round_mono hmul)⟩

/-- A price that is a positive number is in its own window. -/
theorem inWindow_self (h0 : 0 ≤ p) (h100 : p ≤ 100) (hq : (ar.round q).IsPos) :
    s.inWindow ar (.fin p) q q = true := by
  obtain ⟨f, hfactor, -, hf⟩ := exists_factor h0 h100 ar s
  obtain ⟨a, ha, hpos⟩ := F64.isPos_iff.mp hq
  have hne : q ≠ .nan := by
    rintro rfl
    simp [ar.round_eq_nan.mpr rfl] at ha
  rw [inWindow_iff, hfactor, Arithmetic.mul, Arithmetic.round_ne_nan, ha, F64.mul_fin]
  refine ⟨hne, by simp, ?_⟩
  -- the rounded price is a double, so rounding it again changes nothing
  rw [← ha, ← ar.round_round q, ha]
  cases s with
  | bid =>
    have hle : a * f ≤ a := mul_le_of_le_one_right hpos.le hf.2
    exact Arithmetic.round_mono (F64.fin_le_fin.mpr hle)
  | ask =>
    have hle : a ≤ a * f := le_mul_of_one_le_right hpos.le hf
    exact Arithmetic.round_mono (F64.fin_le_fin.mpr hle)

/-- A window is open towards the better prices. -/
theorem inWindow_of_better {pct : F64} {r' : F64} (hr' : r' ≠ .nan) (hle : (s.cmp r' r).isLE)
    (hwin : s.inWindow ar pct q r = true) : s.inWindow ar pct q r' = true := by
  rw [inWindow_iff] at hwin ⊢
  obtain ⟨-, hnan, hin⟩ := hwin
  refine ⟨hr', hnan, ?_⟩
  cases s with
  | bid => exact hin.trans (Arithmetic.round_mono (Side.isLE_cmp.mp hle))
  | ask => exact (Arithmetic.round_mono (Side.isLE_cmp.mp hle)).trans hin

/-! ### The edge -/

variable {a b : ℚ}

theorem inWindow_exact : s.inWindow .exact (.fin p) (.fin a) (.fin b) = true ↔
    match s with
    | .bid => a * s.factor p ≤ b
    | .ask => b ≤ a * s.factor p := by
  have hdiv : (F64.fin p).div (.fin 100) = .fin (p / 100) := F64.div_fin (by norm_num)
  cases s with
  | bid =>
    simp only [inWindow, within, threshold, LobFilter.bidThreshold, Arithmetic.round,
      Arithmetic.mul, Arithmetic.sub, Arithmetic.div, hdiv, F64.sub_fin, F64.mul_fin, F64.ge_fin,
      decide_eq_true_eq, factor]
  | ask =>
    simp only [inWindow, within, threshold, LobFilter.askThreshold, Arithmetic.round,
      Arithmetic.mul, Arithmetic.add, Arithmetic.div, hdiv, F64.add_fin, F64.mul_fin, F64.le_fin,
      decide_eq_true_eq, factor]

/-- What rounding can shift the edge of a window by, in percent. -/
def slack : ℚ := 1 / 10 ^ 12

theorem tiny_le (hmin : 1 / 2 ^ 1000 ≤ a) : (2 : ℚ) ^ (-1074 : ℤ) ≤ a / 2 ^ 52 :=
  calc (2 : ℚ) ^ (-1074 : ℤ) ≤ 2 ^ (-1052 : ℤ) := zpow_le_zpow_right₀ (by norm_num) (by norm_num)
    _ = 1 / 2 ^ 1000 / 2 ^ 52 := by rw [div_div, ← pow_add, zpow_neg, zpow_ofNat, one_div]
    _ ≤ a / 2 ^ 52 := by gcongr

/-- The threshold on doubles is a rounded number close to the exact threshold. -/
theorem exists_threshold (h0 : 0 ≤ p) (h100 : p ≤ 100) (hmin : 1 / 2 ^ 1000 ≤ a)
    (hmax : a ≤ 2 ^ 1000) (s : Side) :
    ∃ t : ℚ, s.threshold .double (.fin p) (.fin a) = (F64.fin t).round ∧ 0 ≤ t ∧
      |t - a * s.factor p| ≤ a / 2 ^ 48 := by
  obtain ⟨f, hfactor, hclose, hf⟩ := exists_factor h0 h100 .double s
  have ha : 0 ≤ a := le_trans (by positivity) hmin
  have hround : (F64.fin a).round = .fin (F64.nearest a) :=
    F64.round_fin ha (hmax.trans (pow_le_pow_right₀ (by norm_num) (by norm_num)))
  have herr : |F64.nearest a - a| ≤ a / 2 ^ 51 := by
    have := F64.abs_nearest_sub_le ha
    have := tiny_le hmin
    linarith
  have hf3 : 0 ≤ f ∧ f ≤ 3 := by
    have := abs_le.mp hclose
    cases s with
    | bid => exact ⟨hf.1, hf.2.trans (by norm_num)⟩
    | ask =>
      rw [factor] at this
      exact ⟨zero_le_one.trans hf, by linarith⟩
  refine ⟨F64.nearest a * f, ?_, mul_nonneg (F64.nearest_nonneg ha) hf3.1, ?_⟩
  · rw [hfactor, Arithmetic.mul, Arithmetic.round, Arithmetic.round, hround, F64.mul_fin]
  · calc |F64.nearest a * f - a * s.factor p|
        = |(F64.nearest a - a) * f + a * (f - s.factor p)| := by ring_nf
      _ ≤ |F64.nearest a - a| * f + a * |f - s.factor p| := by
          refine (abs_add_le _ _).trans_eq ?_
          rw [abs_mul, abs_mul, abs_of_nonneg hf3.1, abs_of_nonneg ha]
      _ ≤ a / 2 ^ 51 * 3 + a * (7 / 2 ^ 52) :=
          add_le_add (mul_le_mul herr hf3.2 hf3.1 (by positivity))
            (mul_le_mul_of_nonneg_left hclose ha)
      _ ≤ a / 2 ^ 48 := by linarith

/-- The window on doubles has all that is in the exact window of a slightly smaller percentage. -/
theorem inWindow_double_of_exact (h0 : 0 ≤ p) (h100 : p ≤ 100) (hmin : 1 / 2 ^ 1000 ≤ a)
    (hmax : a ≤ 2 ^ 1000) (h : s.inWindow .exact (.fin (p - slack)) (.fin a) (.fin b) = true) :
    s.inWindow .double (.fin p) (.fin a) (.fin b) = true := by
  obtain ⟨t, ht, -, hclose⟩ := exists_threshold h0 h100 hmin hmax s
  rw [inWindow_exact] at h
  rw [inWindow_iff, ht]
  refine ⟨by simp, by simp, ?_⟩
  have ha : 0 ≤ a := le_trans (by positivity) hmin
  obtain ⟨hlow, hhigh⟩ := abs_le.mp hclose
  cases s with
  | bid =>
    have hle : t ≤ b := by
      simp only [factor, slack] at h hhigh
      linarith
    exact F64.round_fin_le hle
  | ask =>
    have hle : b ≤ t := by
      simp only [factor, slack] at h hlow
      linarith
    exact F64.round_fin_le hle

/-- The window on doubles has only what is in the exact window of a slightly larger percentage. -/
theorem inWindow_exact_of_double (h0 : 0 ≤ p) (h100 : p ≤ 100) (hmin : 1 / 2 ^ 1000 ≤ a)
    (hmax : a ≤ 2 ^ 1000) (hb : 0 ≤ b)
    (h : s.inWindow .double (.fin p) (.fin a) (.fin b) = true) :
    s.inWindow .exact (.fin (p + slack)) (.fin a) (.fin b) = true := by
  obtain ⟨t, ht, ht0, hclose⟩ := exists_threshold h0 h100 hmin hmax s
  rw [inWindow_iff, ht] at h
  have ha : 0 < a := lt_of_lt_of_le (by positivity) hmin
  have hmax4 : a * 4 ≤ 2 ^ 1022 :=
    calc a * 4 ≤ 2 ^ 1000 * 2 ^ 22 := by gcongr; norm_num
      _ = 2 ^ 1022 := by rw [← pow_add]
  have hap0 : 0 ≤ a * p := by positivity
  have hap : a * p ≤ a * 100 := by gcongr
  obtain ⟨hlow, hhigh⟩ := abs_le.mp hclose
  rw [inWindow_exact]
  by_contra hout
  cases s with
  | bid =>
    -- the price is below the exact threshold by more than the errors
    have hout : b < a * factor .bid (p + slack) := not_le.mp hout
    simp only [factor, slack] at hout hlow hhigh
    have hlt : (F64.fin b).round < (F64.fin t).round :=
      F64.round_lt_round (tiny_le hmin) hb (le_trans (by linarith) hmax4) (by linarith)
    exact absurd h.2.2 (not_le.mpr hlt)
  | ask =>
    have hout : a * factor .ask (p + slack) < b := not_le.mp hout
    have hle := F64.round_fin_le hout.le
    simp only [factor] at hlow hhigh
    have hlt : (F64.fin t).round < (F64.fin (a * factor .ask (p + slack))).round := by
      simp only [factor, slack]
      exact F64.round_lt_round (tiny_le hmin) ht0 (le_trans (by linarith) hmax4) (by linarith)
    exact absurd h.2.2 (not_le.mpr (hlt.trans_le hle))

end Side

end Cryptomeria
