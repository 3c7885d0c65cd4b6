import Cryptomeria.Num.Text

/-!
# Writing a number and reading it back

`format!("{:.d}", x)` and then `parse::<f64>`. What comes back is `x` rounded to `d` decimals
(`parseF64_formatFixed`), so the number itself only if it has no more than these
(`parseF64_formatFixed_eq_iff`).
-/

set_option autoImplicit false

namespace Cryptomeria

/-! ## Digits -/

theorem digitsVal_eq_ofDigitChars (ds : List Char) :
    digitsVal ds = Nat.ofDigitChars 10 ds 0 := by
  rw [digitsVal, Nat.ofDigitChars_eq_foldl]
  congr 1
  funext n c
  rw [mul_comm]

theorem digitsVal_append (xs ys : List Char) :
    digitsVal (xs ++ ys) = digitsVal xs * 10 ^ ys.length + digitsVal ys := by
  simp only [digitsVal_eq_ofDigitChars]
  rw [Nat.ofDigitChars_append, Nat.ofDigitChars_eq_ofDigitChars_zero, mul_comm]

theorem digitsVal_replicate_zero (n : ℕ) : digitsVal (List.replicate n '0') = 0 := by
  rw [digitsVal_eq_ofDigitChars, Nat.ofDigitChars_replicate_zero, mul_zero]

theorem toList_toString (n : ℕ) : (toString n).toList = Nat.toDigits 10 n := by
  rw [Nat.toString_eq_ofList_toDigits, String.toList_ofList]

@[simp] theorem digitsVal_toString (n : ℕ) : digitsVal (toString n).toList = n := by
  rw [toList_toString, digitsVal_eq_ofDigitChars, Nat.ofDigitChars_ten_toDigits]

theorem toString_ne_nil (n : ℕ) : (toString n).toList ≠ [] := by
  rw [toList_toString]
  exact Nat.toDigits_ne_nil

theorem isDigit_toString (n : ℕ) : ∀ c ∈ (toString n).toList, c.isDigit = true := by
  intro c hc
  rw [toList_toString] at hc
  exact Nat.isDigit_of_mem_toDigits (by decide) (by decide) hc

theorem toList_padLeft (width n : ℕ) :
    (padLeft width n).toList
      = List.replicate (width - (toString n).toList.length) '0' ++ (toString n).toList := by
  rw [padLeft, String.toList_append, String.toList_ofList, String.length_toList]

@[simp] theorem digitsVal_padLeft (width n : ℕ) : digitsVal (padLeft width n).toList = n := by
  rw [toList_padLeft, digitsVal_append, digitsVal_replicate_zero, digitsVal_toString]
  simp

theorem isDigit_padLeft (width n : ℕ) : ∀ c ∈ (padLeft width n).toList, c.isDigit = true := by
  intro c hc
  rw [toList_padLeft, List.mem_append] at hc
  rcases hc with hc | hc
  · rw [List.eq_of_mem_replicate hc]
    decide
  · exact isDigit_toString n c hc

theorem length_padLeft {width n : ℕ} (hwidth : 0 < width) (hn : n < 10 ^ width) :
    (padLeft width n).toList.length = width := by
  have hlength : (toString n).toList.length ≤ width := by
    rw [toList_toString]
    exact (Nat.length_toDigits_le_iff (by decide) hwidth).mpr hn
  rw [toList_padLeft, List.length_append, List.length_replicate]
  omega

/-! ## Reading digits -/

section Reading

variable {ds int frac : List Char}

theorem takeWhile_append_point {cs : List Char} (hint : ∀ c ∈ int, c.isDigit = true)
    (hcs : ∀ c ∈ cs.head?, c.isDigit = false) :
    (int ++ cs).takeWhile Char.isDigit = int ∧ (int ++ cs).dropWhile Char.isDigit = cs := by
  rw [List.takeWhile_append_of_pos hint, List.dropWhile_append_of_pos hint]
  cases cs with
  | nil => simp
  | cons c cs => simp [hcs c rfl]

theorem parseUnsigned_digits (hne : ds ≠ []) (hall : ∀ c ∈ ds, c.isDigit = true) :
    parseUnsigned ds = some (digitsVal ds : ℚ) := by
  obtain ⟨htake, hdrop⟩ := @takeWhile_append_point ds [] hall (by simp)
  rw [List.append_nil] at htake hdrop
  simp only [parseUnsigned, htake, hdrop]
  simp [hne, parseExponent, scale10]

theorem scale10_neg (m n : ℕ) : scale10 m (-(n : ℤ)) = m / 10 ^ n := by
  rw [scale10]
  split
  · obtain rfl : n = 0 := by omega
    simp
  · rw [neg_neg, Int.toNat_natCast]

theorem parseUnsigned_point (hne : int ≠ []) (hint : ∀ c ∈ int, c.isDigit = true)
    (hfrac : ∀ c ∈ frac, c.isDigit = true) :
    parseUnsigned (int ++ '.' :: frac)
      = some ((digitsVal (int ++ frac) : ℚ) / 10 ^ frac.length) := by
  obtain ⟨htake, hdrop⟩ := @takeWhile_append_point int ('.' :: frac) hint (by
    intro c hc
    obtain rfl := Option.some.inj hc
    decide)
  obtain ⟨htake', hdrop'⟩ := @takeWhile_append_point frac [] hfrac (by simp)
  rw [List.append_nil] at htake' hdrop'
  simp only [parseUnsigned, htake, hdrop, htake', hdrop']
  rw [if_neg fun h => hne h.1, parseExponent]
  have hscale := scale10_neg (digitsVal (int ++ frac)) frac.length
  rw [← zero_sub] at hscale
  rw [← hscale]
  rfl

/-- Words start with a letter. -/
theorem word_ne {c x : Char} {cs xs : List Char} (hc : c.isDigit = true)
    (hx : x.isDigit = false) : (c :: cs).map Char.toLower ≠ x :: xs := by
  intro h
  rw [List.map_cons, List.cons.injEq] at h
  have hupper : ¬ c.isUpper = true := by
    intro hu
    simp only [Char.isDigit, Char.isUpper, Bool.and_eq_true, decide_eq_true_eq,
      UInt32.le_iff_toNat_le] at hc hu
    have hle : c.val.toNat ≤ 57 := hc.2
    have hge : 65 ≤ c.val.toNat := hu.1
    omega
  rw [Char.toLower_eq_of_not_isUpper hupper] at h
  rw [h.1, hx] at hc
  cases hc

theorem parseF64_of_splitSign {s : String} {negative : Bool} {c : Char} {cs : List Char}
    (hs : splitSign s.toList = (negative, c :: cs)) (hc : c.isDigit = true) :
    parseF64 s = (parseUnsigned (c :: cs)).map fun q => .fin (if negative then -q else q) := by
  rw [parseF64, hs]
  dsimp only
  rw [if_neg (not_or.mpr ⟨word_ne hc rfl, word_ne hc rfl⟩), if_neg (word_ne hc rfl)]

theorem splitSign_of_digit {c : Char} (cs : List Char) (hc : c.isDigit = true) :
    splitSign (c :: cs) = (false, c :: cs) := by
  rw [splitSign]
  · rintro _ ⟨⟩
    exact absurd hc (by decide)
  · rintro _ ⟨⟩
    exact absurd hc (by decide)

/-- What is a `u64` is an `f64`. -/
theorem parseU64_eq_none {s : String} (h : parseF64 s = none) : parseU64 s = none := by
  have hdigits : ∀ ds, splitSign s.toList = (false, ds) → ds ≠ [] → ¬ ds.all Char.isDigit := by
    intro ds hs hne hall
    obtain ⟨c, cs, rfl⟩ := List.exists_cons_of_ne_nil hne
    rw [List.all_eq_true] at hall
    rw [parseF64_of_splitSign hs (hall c List.mem_cons_self), parseUnsigned_digits hne hall] at h
    cases h
  rw [parseU64]
  refine if_neg ?_
  rintro ⟨hne, hall, -⟩
  revert hne hall
  split
  · rename_i cs hcs
    exact fun hne hall => hdigits cs (by rw [hcs]; rfl) hne hall
  · rename_i cs hplus
    intro hne hall
    obtain ⟨c, cs', hcs⟩ := List.exists_cons_of_ne_nil hne
    have hc : c.isDigit = true := by
      rw [hcs] at hall
      exact List.all_eq_true.mp hall c List.mem_cons_self
    exact hdigits _ (by rw [hcs, splitSign_of_digit cs' hc]) hne hall

end Reading

/-! ## A number with `d` decimals -/

/-- What `d` decimals leave of a number. -/
def rounded (d : ℕ) (q : ℚ) : ℚ :=
  if q < 0 then -(roundHalfEven (-q * 10 ^ d) / 10 ^ d) else roundHalfEven (q * 10 ^ d) / 10 ^ d

/-- A number has no more than `d` decimals. The values that are no numbers have none. -/
def HasDecimals (d : ℕ) : F64 → Prop
  | .fin q => ∃ z : ℤ, q * 10 ^ d = z
  | _ => True

theorem parseUnsigned_formatDecimals (d : ℕ) (q : ℚ) :
    parseUnsigned (formatDecimals d q).toList
      = some ((roundHalfEven (q * 10 ^ d) : ℚ) / 10 ^ d) := by
  rw [formatDecimals]
  generalize roundHalfEven (q * 10 ^ d) = n
  by_cases hd : d = 0
  · subst hd
    rw [if_pos rfl, parseUnsigned_digits (toString_ne_nil n) (isDigit_toString n),
      digitsVal_toString]
    simp
  · have hlength := length_padLeft (Nat.pos_of_ne_zero hd)
      (Nat.mod_lt n (Nat.pow_pos (n := d) (by decide : 0 < 10)))
    have hlist : (toString (n / 10 ^ d) ++ "." ++ padLeft d (n % 10 ^ d)).toList
        = (toString (n / 10 ^ d)).toList ++ '.' :: (padLeft d (n % 10 ^ d)).toList := by
      simp
    rw [if_neg hd, hlist, parseUnsigned_point (toString_ne_nil _) (isDigit_toString _)
      (isDigit_padLeft _ _), digitsVal_append, digitsVal_toString, digitsVal_padLeft, hlength,
      Nat.div_add_mod']

theorem formatDecimals_eq_cons (d : ℕ) (q : ℚ) :
    ∃ c cs, (formatDecimals d q).toList = c :: cs ∧ c.isDigit = true := by
  have hnat : ∀ n : ℕ, ∃ c cs, (toString n).toList = c :: cs ∧ c.isDigit = true := by
    intro n
    obtain ⟨c, cs, hcs⟩ := List.exists_cons_of_ne_nil (toString_ne_nil n)
    exact ⟨c, cs, hcs, isDigit_toString n c (by rw [hcs]; exact List.mem_cons_self)⟩
  rw [formatDecimals]
  split
  · exact hnat _
  · obtain ⟨c, cs, hcs, hc⟩ := hnat (roundHalfEven (q * 10 ^ d) / 10 ^ d)
    exact ⟨c, _, by rw [String.toList_append, String.toList_append, hcs]; rfl, hc⟩

/-- **What is written with `d` decimals is read back rounded.** -/
theorem parseF64_formatFixed (d : ℕ) (q : ℚ) :
    parseF64 (formatFixed d (.fin q)) = some (.fin (rounded d q)) := by
  rw [formatFixed, rounded]
  split
  · obtain ⟨c, cs, hcs, hc⟩ := formatDecimals_eq_cons d (-q)
    have hsign : splitSign ("-" ++ formatDecimals d (-q)).toList = (true, c :: cs) := by
      rw [String.toList_append, hcs]
      rfl
    rw [parseF64_of_splitSign hsign hc, ← hcs, parseUnsigned_formatDecimals]
    rfl
  · obtain ⟨c, cs, hcs, hc⟩ := formatDecimals_eq_cons d q
    have hsign : splitSign (formatDecimals d q).toList = (false, c :: cs) := by
      rw [hcs, splitSign_of_digit cs hc]
    rw [parseF64_of_splitSign hsign hc, ← hcs, parseUnsigned_formatDecimals]
    rfl

/-- A non-negative integer, as a natural number. -/
theorem exists_natCast {x : ℚ} (hx : 0 ≤ x) {z : ℤ} (hz : x = z) : ∃ n : ℕ, x = n := by
  rw [hz, Int.cast_nonneg_iff] at hx
  obtain ⟨n, rfl⟩ := Int.eq_ofNat_of_zero_le hx
  exact ⟨n, hz.trans (Int.cast_natCast n)⟩

theorem roundHalfEven_natCast (n : ℕ) : roundHalfEven (n : ℚ) = n := by
  have hfloor : (n : ℚ).floor.toNat = n := by
    rw [← Int.cast_natCast n, Rat.floor_intCast, Int.toNat_natCast]
  simp [roundHalfEven, hfloor]

/-- A number is what its decimals leave of it if it has no more. -/
theorem rounded_eq_iff {d : ℕ} {q : ℚ} : rounded d q = q ↔ ∃ z : ℤ, q * 10 ^ d = z := by
  have hpow : (10 : ℚ) ^ d ≠ 0 := by positivity
  rw [rounded]
  split
  · rename_i hneg
    rw [neg_eq_iff_eq_neg, div_eq_iff hpow]
    constructor
    · intro h
      exact ⟨-roundHalfEven (-q * 10 ^ d), by push_cast; rw [h]; ring⟩
    · rintro ⟨z, hz⟩
      obtain ⟨n, hn⟩ : ∃ n : ℕ, -q * 10 ^ d = n :=
        exists_natCast (z := -z) (mul_nonneg (by linarith) (by positivity))
          (by push_cast; rw [← hz]; ring)
      rw [hn, roundHalfEven_natCast, ← hn, neg_mul]
  · rename_i hpos
    rw [div_eq_iff hpow]
    constructor
    · intro h
      exact ⟨roundHalfEven (q * 10 ^ d), by push_cast; exact h.symm⟩
    · rintro ⟨z, hz⟩
      obtain ⟨n, hn⟩ : ∃ n : ℕ, q * 10 ^ d = n :=
        exists_natCast (mul_nonneg (not_lt.mp hpos) (by positivity)) hz
      rw [hn, roundHalfEven_natCast]

theorem hasDecimals_rounded (d : ℕ) (q : ℚ) : HasDecimals d (.fin (rounded d q)) := by
  have hpow : (10 : ℚ) ^ d ≠ 0 := by positivity
  rw [HasDecimals, rounded]
  split
  · exact ⟨-roundHalfEven (-q * 10 ^ d), by push_cast; field_simp⟩
  · exact ⟨roundHalfEven (q * 10 ^ d), by push_cast; field_simp⟩

/-- **When a number survives being written with `d` decimals.** -/
theorem parseF64_formatFixed_eq_iff {d : ℕ} {x : F64} :
    parseF64 (formatFixed d x) = some x ↔ HasDecimals d x := by
  cases x with
  | fin q => rw [parseF64_formatFixed, Option.some_inj, F64.fin.injEq, rounded_eq_iff, HasDecimals]
  | negInf => exact iff_of_true (by rw [formatFixed]; decide) trivial
  | posInf => exact iff_of_true (by rw [formatFixed]; decide) trivial
  | nan => exact iff_of_true (by rw [formatFixed]; decide) trivial

end Cryptomeria
