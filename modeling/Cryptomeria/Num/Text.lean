import Cryptomeria.Num.F64

/-!
# Numbers as text

`str::parse` at `f64`, `u64` and `i64`, and the two ways the program writes an `f64`: `{}` and
`{:.d}`. The grammar of `parse::<f64>` is an optional sign and then `inf`, `infinity` or `nan` in
any letter case, or digits with an optional point (digits on at least one side of it) and an
optional exponent.
-/

set_option autoImplicit false

namespace Cryptomeria

/-- The value of a run of decimal digits. -/
def digitsVal (ds : List Char) : ℕ := ds.foldl (fun n c => n * 10 + (c.toNat - '0'.toNat)) 0

/-- An optional sign, then the rest. -/
def splitSign : List Char → Bool × List Char
  | '-' :: cs => (true, cs)
  | '+' :: cs => (false, cs)
  | cs => (false, cs)

/-- `m * 10 ^ e` -/
def scale10 (m : ℕ) (e : ℤ) : ℚ :=
  if 0 ≤ e then m * 10 ^ e.toNat else m / 10 ^ (-e).toNat

/-- The exponent part of a number: nothing, or `e`, a sign and at least one digit. -/
def parseExponent : List Char → Option ℤ
  | [] => some 0
  | c :: cs =>
    if c = 'e' ∨ c = 'E' then
      let (negative, ds) := splitSign cs
      if ds ≠ [] ∧ ds.all Char.isDigit then
        some (if negative then -(digitsVal ds : ℤ) else digitsVal ds)
      else none
    else none

/-- A number without its sign. -/
def parseUnsigned (cs : List Char) : Option ℚ :=
  let int := cs.takeWhile Char.isDigit
  let rest := cs.dropWhile Char.isDigit
  let (frac, rest) := match rest with
    | '.' :: rest => (rest.takeWhile Char.isDigit, rest.dropWhile Char.isDigit)
    | rest => ([], rest)
  if int = [] ∧ frac = [] then none
  else do
    let e ← parseExponent rest
    return scale10 (digitsVal (int ++ frac)) (e - frac.length)

/-- `s.parse::<f64>().ok()`, but the decimal is kept as written. Where the nearest double makes a
difference it is taken later (`Arithmetic`). -/
def parseF64 (s : String) : Option F64 :=
  let (negative, cs) := splitSign s.toList
  let word := cs.map Char.toLower
  if word = ['i', 'n', 'f'] ∨ word = ['i', 'n', 'f', 'i', 'n', 'i', 't', 'y'] then
    some (if negative then .negInf else .posInf)
  else if word = ['n', 'a', 'n'] then some .nan
  else (parseUnsigned cs).map fun q => .fin (if negative then -q else q)

/-- `s.parse::<u64>().ok()`: an optional `+` and digits, below `2 ^ 64`. -/
def parseU64 (s : String) : Option ℕ :=
  let ds := match s.toList with
    | '+' :: cs => cs
    | cs => cs
  if ds ≠ [] ∧ ds.all Char.isDigit ∧ digitsVal ds < 2 ^ 64 then some (digitsVal ds) else none

/-- `s.parse::<i64>().ok()` -/
def parseI64 (s : String) : Option ℤ :=
  let (negative, ds) := splitSign s.toList
  let z : ℤ := if negative then -(digitsVal ds : ℤ) else digitsVal ds
  if ds ≠ [] ∧ ds.all Char.isDigit ∧ -2 ^ 63 ≤ z ∧ z < 2 ^ 63 then some z else none

/-! ## Writing -/

/-- `n` rounded to the nearest integer, ties to even. -/
def roundHalfEven (q : ℚ) : ℕ :=
  let n := q.floor.toNat
  let r := q - n
  if r < 1 / 2 then n else if 1 / 2 < r then n + 1 else if n % 2 = 0 then n else n + 1

/-- `n` in decimal, with zeros in front up to `width` digits. -/
def padLeft (width n : ℕ) : String :=
  String.ofList (List.replicate (width - (toString n).length) '0') ++ toString n

/-- A non-negative rational with `d` decimals. -/
def formatDecimals (d : ℕ) (q : ℚ) : String :=
  let n := roundHalfEven (q * 10 ^ d)
  if d = 0 then toString n else toString (n / 10 ^ d) ++ "." ++ padLeft d (n % 10 ^ d)

/-- `format!("{:.d}", x)` of the decimal itself: a tie goes to the even digit, whichever side of it
the nearest double is on. -/
def formatFixed (d : ℕ) : F64 → String
  | .negInf => "-inf"
  | .fin q => if q < 0 then "-" ++ formatDecimals d (-q) else formatDecimals d q
  | .posInf => "inf"
  | .nan => "NaN"

/-- How many decimals write a decimal fraction exactly. -/
def decimalsOf (q : ℚ) : ℕ :=
  ((List.range (q.den.log2 + 1)).find? fun d => 10 ^ d % q.den == 0).getD 17

/-- `x.to_string()`: as many decimals as it takes. -/
def displayF64 : F64 → String
  | .fin q => formatFixed (decimalsOf q) (.fin q)
  | x => formatFixed 0 x

example : parseF64 "-100.50" = some (.fin (-201 / 2)) := by decide +kernel

example : parseF64 "1.5e-1" = some (.fin (3 / 20)) := by decide +kernel

example : parseF64 "1.2.3" = none := by decide +kernel

example : formatFixed 2 (.fin (-201 / 2)) = "-100.50" := by decide +kernel

example : displayF64 (.fin (201 / 20)) = "10.05" := by decide +kernel

end Cryptomeria
