import Mathlib

/-!
# `f64`

The program keeps every price and size as an `f64`. Here the finite values are exact rationals,
and the two infinities and NaN are kept apart, because the comparisons of the source treat them
specially and `str::parse` can produce them. A number of a message is the decimal that it is
written as, and sums and differences are those of `ℚ`; rounding is left out of them. It is put in
where a comparison turns on it, at the edge of a percentage window (`F64.round`). The two zeros are
one value.

Two orders live on this type. `<` and `≤` are `OrderedFloat`'s: total, NaN greatest and equal to
itself; it is the order of the keys of a `BTreeMap`. `F64.lt`, `F64.eq` and so on are the
operators of the language, which are all false on NaN.
-/

set_option autoImplicit false

namespace Cryptomeria

/-- An `f64` value. -/
inductive F64 where
  | negInf
  | fin (q : ℚ)
  | posInf
  | nan
deriving DecidableEq

namespace F64

/-! ## The order of `OrderedFloat` -/

/-- Where a value stands in `OrderedFloat`'s order; only finite values need the second part. -/
def rank : F64 → ℕ ×ₗ ℚ
  | negInf => toLex (0, 0)
  | fin q => toLex (1, q)
  | posInf => toLex (2, 0)
  | nan => toLex (3, 0)

theorem rank_injective : Function.Injective rank := by
  intro a b h
  cases a <;> cases b <;> simp_all [rank]

instance : LinearOrder F64 := LinearOrder.lift' rank rank_injective

@[simp] theorem fin_lt_fin {a b : ℚ} : fin a < fin b ↔ a < b := by
  show rank (fin a) < rank (fin b) ↔ a < b
  simp [rank, Prod.Lex.toLex_lt_toLex]

@[simp] theorem fin_le_fin {a b : ℚ} : fin a ≤ fin b ↔ a ≤ b := by
  show rank (fin a) ≤ rank (fin b) ↔ a ≤ b
  simp [rank, Prod.Lex.toLex_le_toLex]

theorem not_posInf_le_fin {a : ℚ} : ¬ posInf ≤ fin a := by
  show ¬ rank posInf ≤ rank (fin a)
  simp [rank, Prod.Lex.toLex_le_toLex]

/-! ## The operators of the language -/

/-- `a == b` -/
def eq (a b : F64) : Bool := a != nan && b != nan && a == b

/-- `a < b` -/
def lt (a b : F64) : Bool := a != nan && b != nan && decide (a < b)

/-- `a <= b` -/
def le (a b : F64) : Bool := a != nan && b != nan && decide (a ≤ b)

/-- `a > b` -/
def gt (a b : F64) : Bool := lt b a

/-- `a >= b` -/
def ge (a b : F64) : Bool := le b a

def zero : F64 := fin 0

def isNan (a : F64) : Bool := a == nan

@[simp] theorem lt_fin {a b : ℚ} : lt (fin a) (fin b) = decide (a < b) := by
  simp [lt]

@[simp] theorem le_fin {a b : ℚ} : le (fin a) (fin b) = decide (a ≤ b) := by
  simp [le]

@[simp] theorem gt_fin {a b : ℚ} : gt (fin a) (fin b) = decide (b < a) := lt_fin

@[simp] theorem ge_fin {a b : ℚ} : ge (fin a) (fin b) = decide (b ≤ a) := le_fin

@[simp] theorem eq_zero {a : F64} : eq a zero = true ↔ a = zero := by
  cases a <;> simp [eq, zero]

/-- A positive value is not zero: the two tests of the book never both succeed. -/
theorem eq_zero_of_gt_zero {a : F64} (h : gt a zero = true) : eq a zero = false := by
  cases ha : eq a zero with
  | false => rfl
  | true =>
    rw [eq_zero.mp ha] at h
    simp [gt, lt] at h

theorem gt_zero_of_ge_zero {a : F64} (h : ge a zero = true) (hne : a ≠ zero) :
    gt a zero = true := by
  simp only [ge, le, Bool.and_eq_true, decide_eq_true_eq] at h
  simp only [gt, lt, Bool.and_eq_true, decide_eq_true_eq]
  exact ⟨h.1, lt_of_le_of_ne h.2 hne.symm⟩

theorem ge_zero_iff {a : F64} : ge a zero = true ↔ a = zero ∨ gt a zero = true := by
  constructor
  · intro h
    by_cases hzero : a = zero
    · exact Or.inl hzero
    · exact Or.inr (gt_zero_of_ge_zero h hzero)
  · rintro (rfl | h)
    · simp [zero]
    · simp only [gt, lt, Bool.and_eq_true, decide_eq_true_eq] at h
      simp only [ge, le, Bool.and_eq_true, decide_eq_true_eq]
      exact ⟨h.1, h.2.le⟩

/-- A positive number, no infinity. -/
def IsPos : F64 → Prop
  | fin q => 0 < q
  | _ => False

instance : DecidablePred IsPos
  | negInf => inferInstanceAs (Decidable False)
  | fin q => inferInstanceAs (Decidable (0 < q))
  | posInf => inferInstanceAs (Decidable False)
  | nan => inferInstanceAs (Decidable False)

theorem isPos_iff {a : F64} : a.IsPos ↔ ∃ q, a = fin q ∧ 0 < q := by
  cases a <;> simp [IsPos]

/-! ## Arithmetic -/

def sign : F64 → SignType
  | negInf => -1
  | fin q => SignType.sign q
  | posInf => 1
  | nan => 0

/-- The infinity of a sign; no sign gives NaN (`0 * inf`, `0 / 0`). -/
def infOfSign : SignType → F64
  | .pos => posInf
  | .neg => negInf
  | .zero => nan

def neg : F64 → F64
  | negInf => posInf
  | fin q => fin (-q)
  | posInf => negInf
  | nan => nan

/-- `a + b` -/
def add : F64 → F64 → F64
  | fin a, fin b => fin (a + b)
  | nan, _ => nan
  | _, nan => nan
  | posInf, negInf => nan
  | negInf, posInf => nan
  | posInf, _ => posInf
  | _, posInf => posInf
  | _, _ => negInf

/-- `a - b` -/
def sub (a b : F64) : F64 := add a (neg b)

/-- `a * b` -/
def mul : F64 → F64 → F64
  | fin a, fin b => fin (a * b)
  | nan, _ => nan
  | _, nan => nan
  | a, b => infOfSign (a.sign * b.sign)

/-- `a / b` -/
def div : F64 → F64 → F64
  | fin a, fin b => if b = 0 then infOfSign (SignType.sign a) else fin (a / b)
  | nan, _ => nan
  | _, nan => nan
  | fin _, _ => zero
  | a, fin b => if b < 0 then neg a else a
  | _, _ => nan

/-- `iter.sum::<f64>()` -/
def sum (xs : List F64) : F64 := xs.foldl add zero

@[simp] theorem add_fin {a b : ℚ} : add (fin a) (fin b) = fin (a + b) := rfl

@[simp] theorem sub_fin {a b : ℚ} : sub (fin a) (fin b) = fin (a - b) := by
  simp [sub, neg, sub_eq_add_neg]

@[simp] theorem mul_fin {a b : ℚ} : mul (fin a) (fin b) = fin (a * b) := rfl

theorem div_fin {a b : ℚ} (hb : b ≠ 0) : div (fin a) (fin b) = fin (a / b) := by
  simp [div, hb]

theorem gt_zero_iff {a : F64} : gt a zero = true ↔ a = posInf ∨ ∃ q, a = fin q ∧ 0 < q := by
  cases a with
  | negInf => exact iff_of_false (by decide) (by simp)
  | fin q => simp [zero]
  | posInf => exact iff_of_true (by decide) (Or.inl rfl)
  | nan => exact iff_of_false (by decide) (by simp)

theorem ne_nan_of_gt_zero {a : F64} (h : gt a zero = true) : a ≠ nan := by
  rintro rfl
  exact absurd h (by decide)

theorem IsPos.gt_zero {a : F64} (h : a.IsPos) : gt a zero = true := by
  obtain ⟨q, rfl, hq⟩ := isPos_iff.mp h
  exact gt_zero_iff.mpr (Or.inr ⟨q, rfl, hq⟩)

theorem add_gt_zero {a b : F64} (ha : gt a zero = true) (hb : gt b zero = true) :
    gt (add a b) zero = true := by
  rw [gt_zero_iff] at ha hb ⊢
  obtain rfl | ⟨p, rfl, hp⟩ := ha
  · obtain rfl | ⟨q, rfl, -⟩ := hb
    · exact Or.inl rfl
    · exact Or.inl rfl
  · obtain rfl | ⟨q, rfl, hq⟩ := hb
    · exact Or.inl rfl
    · exact Or.inr ⟨p + q, rfl, add_pos hp hq⟩

/-- Positive terms add up to something positive, if there are any. -/
theorem sum_gt_zero {xs : List F64} (hne : xs ≠ []) (h : ∀ x ∈ xs, gt x zero = true) :
    gt (sum xs) zero = true := by
  have hfold : ∀ (xs : List F64) (a : F64), gt a zero = true → (∀ x ∈ xs, gt x zero = true) →
      gt (xs.foldl add a) zero = true := by
    intro xs
    induction xs with
    | nil => exact fun _ ha _ => ha
    | cons x xs ih =>
      intro a ha hxs
      refine ih _ (add_gt_zero ha (hxs x List.mem_cons_self)) fun y hy => ?_
      exact hxs y (List.mem_cons_of_mem _ hy)
  cases xs with
  | nil => exact absurd rfl hne
  | cons x xs =>
    have hx := h x List.mem_cons_self
    have hzero : add zero x = x := by
      rcases gt_zero_iff.mp hx with rfl | ⟨q, rfl, -⟩
      · rfl
      · simp [zero]
    rw [sum, List.foldl_cons, hzero]
    exact hfold xs x hx fun y hy => h y (List.mem_cons_of_mem _ hy)

/-! ## Casts -/

/-- `x as u64`: saturating, NaN to 0. -/
def toU64 : F64 → ℕ
  | negInf => 0
  | fin q => min (q.floor.toNat) (2 ^ 64 - 1)
  | posInf => 2 ^ 64 - 1
  | nan => 0

/-- `x as i64`: toward zero, saturating, NaN to 0. -/
def toI64 : F64 → ℤ
  | negInf => -2 ^ 63
  | fin q => max (-2 ^ 63) (min (2 ^ 63 - 1) (q.num.tdiv q.den))
  | posInf => 2 ^ 63 - 1
  | nan => 0

end F64

end Cryptomeria
