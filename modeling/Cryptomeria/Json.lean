import Cryptomeria.Num.Text

/-!
# JSON values and derived reading

`serde_json::Value`, and what `#[derive(Deserialize)]` reads from one. A derived struct accepts
an object (unknown fields ignored) or an array read by position; a field that is not there takes
its default, a field that is there must read, and an array longer than the struct is an error.
-/

set_option autoImplicit false

namespace Cryptomeria

/-- A JSON number: an integer in the range of `u64` or `i64`, or a decimal fraction
`mantissa / 10 ^ decimals`, which is what a literal with a point or an exponent denotes. -/
inductive Number where
  | int (z : ℤ)
  | float (mantissa : ℤ) (decimals : ℕ)
deriving DecidableEq

def Number.toF64 : Number → F64
  | .int z => .fin z
  | .float m d => .fin (m / 10 ^ d)

/-- `Value`; the keys of an object are distinct, as in a `serde_json::Map`. -/
inductive Value where
  | null
  | bool (b : Bool)
  | number (n : Number)
  | string (s : String)
  | array (elems : List Value)
  | object (fields : List (String × Value))

namespace Value

def get (v : Value) (key : String) : Option Value :=
  match v with
  | object fields => fields.lookup key
  | _ => none

def asArray : Value → Option (List Value)
  | array elems => some elems
  | _ => none

def asStr : Value → Option String
  | string s => some s
  | _ => none

def asF64 : Value → Option F64
  | number n => some n.toF64
  | _ => none

/-! ## Reading at a type -/

def readString : Value → Option String := asStr

def readF64 : Value → Option F64 := asF64

def readU64 : Value → Option ℕ
  | number (.int z) => if 0 ≤ z ∧ z < 2 ^ 64 then some z.toNat else none
  | _ => none

def readI64 : Value → Option ℤ
  | number (.int z) => if -2 ^ 63 ≤ z ∧ z < 2 ^ 63 then some z else none
  | _ => none

def readVec {α : Type} (read : Value → Option α) : Value → Option (List α)
  | array elems => elems.mapM read
  | _ => none

/-- `[String; 2]` -/
def readStringPair : Value → Option (String × String)
  | array [string a, string b] => some (a, b)
  | _ => none

/-- `deserialize_number_or_string` -/
def readNumberOrString : Value → Option String
  | number (.int z) => some (toString z)
  | number n => some (displayF64 n.toF64)
  | string s => some s
  | _ => none

/-- `deserialize_number_or_zero` -/
def readNumberOrZero : Value → Option ℤ
  | number (.int z) => some (z.bmod (2 ^ 64))
  | number n => some n.toF64.toI64
  | string s => some ((parseI64 s).getD 0)
  | _ => none

/-- The fields of a derived struct, in declaration order; `none` for a field that is not there. -/
def structFields (names : List String) : Value → Option (List (Option Value))
  | object fields => some (names.map fun name => fields.lookup name)
  | array elems =>
    if elems.length ≤ names.length then some ((List.range names.length).map fun i => elems[i]?)
    else none
  | _ => none

/-- `#[serde(default)]` on a field. -/
def fieldOr {α : Type} (default : α) (read : Value → Option α) : Option Value → Option α
  | none => some default
  | some v => read v

end Value

end Cryptomeria
