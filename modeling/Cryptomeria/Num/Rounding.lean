import Cryptomeria.Lib.Binary
import Cryptomeria.Num.Decimal

/-!
# The nearest `f64`

What an operation on `f64` gives is the exact result rounded to the nearest double, ties to even:
53 binary digits, the last of them not below `2 ^ -1074`, and infinity from `2 ^ 1024` on. Rounding
keeps the order (`F64.round_mono`) and needs no repetition (`F64.round_round`). It merges only
numbers that are close to each other (`F64.round_lt_round`).
-/

set_option autoImplicit false

namespace Cryptomeria

open Binary

theorem rule_roundHalfEven : Rule roundHalfEven where
  mono {a b} ha hab := by
    have hfloor : a.floor.toNat ≤ b.floor.toNat := Int.toNat_le_toNat (Rat.floor_monotone hab)
    have hlast : ∀ q : ℚ, q.floor.toNat ≤ roundHalfEven q ∧
        roundHalfEven q ≤ q.floor.toNat + 1 := by
      intro q
      unfold roundHalfEven
      dsimp only
      split_ifs <;> omega
    rcases hfloor.eq_or_lt with heq | hlt
    · -- between the same two integers the distance from the lower one decides
      unfold roundHalfEven
      dsimp only
      rw [heq]
      split_ifs <;> first | omega | linarith
    · exact ((hlast a).2.trans hlt).trans (hlast b).1
  exact := roundHalfEven_natCast

namespace F64

/-- A number rounded to 53 binary digits, whatever its size. -/
def nearest (q : ℚ) : ℚ :=
  if q < 0 then -(Binary.round roundHalfEven 52 (-1074) (-q))
  else Binary.round roundHalfEven 52 (-1074) q

/-- What is rounded to this number or a larger one is infinite. -/
def overflow : ℚ := 2 ^ 1024

/-- The nearest double. -/
def round : F64 → F64
  | negInf => negInf
  | fin q =>
    let r := nearest q
    if overflow ≤ r then posInf else if r ≤ -overflow then negInf else fin r
  | posInf => posInf
  | nan => nan

-- `0.1` is a little more than a tenth.
example : round (fin (1 / 10)) = fin (3602879701896397 / 2 ^ 55) := by decide +kernel

theorem nearest_nonneg {q : ℚ} (h : 0 ≤ q) : 0 ≤ nearest q := by
  rw [nearest, if_neg (not_lt.mpr h)]
  exact round_nonneg

theorem nearest_neg (q : ℚ) : nearest (-q) = -nearest q := by
  unfold nearest
  rcases lt_trichotomy q 0 with h | rfl | h
  · simp [h, h.le]
  · simp [rule_roundHalfEven]
  · simp [h, h.le]

theorem nearest_mono {p q : ℚ} (h : p ≤ q) : nearest p ≤ nearest q := by
  have hnonneg : ∀ {p q : ℚ}, 0 ≤ p → p ≤ q → nearest p ≤ nearest q := by
    intro p q hp hpq
    rw [nearest, if_neg (not_lt.mpr hp), nearest, if_neg (not_lt.mpr (hp.trans hpq))]
    exact rule_roundHalfEven.round_mono hp hpq
  rcases le_total 0 p with hp | hp
  · exact hnonneg hp h
  · rcases le_total 0 q with hq | hq
    · have hleft := nearest_nonneg (neg_nonneg.mpr hp)
      rw [nearest_neg, Left.nonneg_neg_iff] at hleft
      exact hleft.trans (nearest_nonneg hq)
    · have hneg := hnonneg (neg_nonneg.mpr hq) (neg_le_neg h)
      rwa [nearest_neg, nearest_neg, neg_le_neg_iff] at hneg

theorem nearest_nearest (q : ℚ) : nearest (nearest q) = nearest q := by
  have hnonneg : ∀ {q : ℚ}, 0 ≤ q → nearest (nearest q) = nearest q := by
    intro q hq
    rw [nearest, if_neg (not_lt.mpr (nearest_nonneg hq)), nearest, if_neg (not_lt.mpr hq)]
    exact rule_roundHalfEven.round_round hq
  rcases le_total 0 q with hq | hq
  · exact hnonneg hq
  · have hneg := hnonneg (neg_nonneg.mpr hq)
    rwa [nearest_neg, nearest_neg, neg_inj] at hneg

theorem negInf_le (a : F64) : negInf ≤ a := by
  show rank negInf ≤ rank a
  cases a <;> simp [rank, Prod.Lex.toLex_le_toLex]

theorem le_nan (a : F64) : a ≤ nan := by
  show rank a ≤ rank nan
  cases a <;> simp [rank, Prod.Lex.toLex_le_toLex]

theorem le_posInf {a : F64} (h : a ≠ nan) : a ≤ posInf := by
  show rank a ≤ rank posInf
  cases a <;> simp_all [rank, Prod.Lex.toLex_le_toLex]

theorem posInf_le {a : F64} : posInf ≤ a ↔ a = posInf ∨ a = nan := by
  show rank posInf ≤ rank a ↔ _
  cases a <;> simp [rank, Prod.Lex.toLex_le_toLex]

theorem le_negInf {a : F64} : a ≤ negInf ↔ a = negInf :=
  ⟨fun h => le_antisymm h (negInf_le a), le_of_eq⟩

theorem nan_le {a : F64} : nan ≤ a ↔ a = nan := ⟨fun h => le_antisymm (le_nan a) h, ge_of_eq⟩

@[simp] theorem round_eq_nan {a : F64} : a.round = nan ↔ a = nan := by
  cases a with
  | fin q =>
    simp only [round]
    split_ifs <;> simp
  | negInf | posInf | nan => simp [round]

theorem round_fin_le {p q : ℚ} (h : p ≤ q) : (fin p).round ≤ (fin q).round := by
  have hmono := nearest_mono h
  simp only [round]
  split_ifs with hp hq hq' hp' hq
  · exact le_refl _
  · linarith
  · exact absurd (hp.trans hmono) hq
  · exact le_posInf (by simp)
  · exact negInf_le _
  · exact negInf_le _
  · exact le_posInf (by simp)
  · linarith
  · exact fin_le_fin.mpr hmono

/-- Rounding keeps the order. -/
theorem round_mono {a b : F64} (h : a ≤ b) : a.round ≤ b.round := by
  cases a with
  | negInf => exact negInf_le _
  | nan =>
    obtain rfl := nan_le.mp h
    exact le_refl _
  | posInf =>
    rcases posInf_le.mp h with rfl | rfl
    · exact le_refl _
    · exact le_nan _
  | fin p =>
    cases b with
    | fin q => exact round_fin_le (fin_le_fin.mp h)
    | negInf => simp [le_negInf] at h
    | posInf => exact le_posInf (by simp)
    | nan => exact le_nan _

@[simp] theorem round_round (a : F64) : a.round.round = a.round := by
  cases a with
  | fin q =>
    simp only [round]
    split_ifs with hhigh hlow
    · rfl
    · rfl
    · simp only [nearest_nearest, hhigh, hlow, if_false]
  | negInf | posInf | nan => rfl

/-! ## The error -/

theorem abs_nearest_sub_le {q : ℚ} (hq : 0 ≤ q) :
    |nearest q - q| ≤ q / 2 ^ 52 + 2 ^ (-1074 : ℤ) := by
  rw [nearest, if_neg (not_lt.mpr hq)]
  exact rule_roundHalfEven.abs_round_sub_le hq

theorem nearest_of_round {q r : ℚ} (h : (fin q).round = fin r) : nearest q = r := by
  simp only [round] at h
  split_ifs at h
  exact fin.inj h

/-- Far below the overflow nothing is rounded to infinity. -/
theorem round_fin {q : ℚ} (hq : 0 ≤ q) (hmax : q ≤ 2 ^ 1022) : (fin q).round = fin (nearest q) := by
  obtain ⟨-, herr⟩ := abs_le.mp (abs_nearest_sub_le hq)
  have hnonneg := nearest_nonneg hq
  have hone : (1 : ℚ) ≤ 2 ^ 1022 := one_le_pow₀ (by norm_num)
  have htiny : (2 : ℚ) ^ (-1074 : ℤ) ≤ 1 := zpow_le_one_of_nonpos₀ (by norm_num) (by norm_num)
  have hfour : overflow = 2 ^ 2 * 2 ^ 1022 := by rw [overflow, ← pow_add]
  have hstep : q / 2 ^ 52 ≤ q := div_le_self hq (by norm_num)
  generalize (2 : ℚ) ^ 1022 = big at hmax hone hfour
  generalize (2 : ℚ) ^ (-1074 : ℤ) = tiny at herr htiny
  have hover : nearest q < overflow := by linarith
  have hlow : ¬ nearest q ≤ -overflow := by linarith
  simp only [round, if_neg (not_le.mpr hover), if_neg hlow]

/-- Between the sizes at which doubles lose digits and those at which they become infinite. -/
def InRange : F64 → Prop
  | fin q => 1 / 2 ^ 1000 ≤ q ∧ q ≤ 2 ^ 1000
  | _ => False

instance : DecidablePred InRange
  | negInf => inferInstanceAs (Decidable False)
  | fin q => inferInstanceAs (Decidable (1 / 2 ^ 1000 ≤ q ∧ q ≤ 2 ^ 1000))
  | posInf => inferInstanceAs (Decidable False)
  | nan => inferInstanceAs (Decidable False)

theorem inRange_iff {a : F64} : a.InRange ↔ ∃ q, a = fin q ∧ 1 / 2 ^ 1000 ≤ q ∧ q ≤ 2 ^ 1000 := by
  cases a <;> simp [InRange]

theorem InRange.isPos {a : F64} (h : a.InRange) : a.IsPos := by
  obtain ⟨q, rfl, hq, -⟩ := inRange_iff.mp h
  exact isPos_iff.mpr ⟨q, rfl, lt_of_lt_of_le (by positivity) hq⟩

/-- Numbers that are further apart than the two errors stay apart. -/
theorem round_lt_round {p q e : ℚ} (he : 2 ^ (-1074 : ℤ) ≤ e) (hp : 0 ≤ p) (hmax : q ≤ 2 ^ 1022)
    (h : p + (p / 2 ^ 52 + e) < q - (q / 2 ^ 52 + e)) : (fin p).round < (fin q).round := by
  have hpos : 0 < e := lt_of_lt_of_le (by positivity) he
  have hpq : p ≤ q := by
    by_contra hlt
    linarith only [h, hp, hlt, hpos]
  rw [round_fin hp (hpq.trans hmax), round_fin (hp.trans hpq) hmax]
  obtain ⟨-, hbelow⟩ := abs_le.mp (abs_nearest_sub_le hp)
  obtain ⟨habove, -⟩ := abs_le.mp (abs_nearest_sub_le (hp.trans hpq))
  exact fin_lt_fin.mpr (by linarith)

end F64

end Cryptomeria
