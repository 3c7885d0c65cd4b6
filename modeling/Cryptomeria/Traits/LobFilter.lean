import Cryptomeria.Num.Rounding

/-!
# The level pre-filter

`LobFilter` and `should_include` of `traits/mod.rs`. The function takes both best prices and
looks at the one of its own side only (`shouldInclude_own_side`).

The edge of a percentage window is where rounding shows: at 0.1 percent, the ask 60060 is outside
the window of 60000. So the window is computed as the program does it, on doubles, every operation
rounded. A price here is the decimal that a message has; the window looks at its nearest double.
What the window would be without rounding is kept beside it, for statements about exact arithmetic.
-/

set_option autoImplicit false

namespace Cryptomeria

/-- How a window is computed: in `f64`, which is what the program does, or exactly. -/
inductive Arithmetic where
  | double
  | exact
deriving DecidableEq

namespace Arithmetic

def round : Arithmetic → F64 → F64
  | double, a => a.round
  | exact, a => a

def add (ar : Arithmetic) (a b : F64) : F64 := ar.round (a.add b)

def sub (ar : Arithmetic) (a b : F64) : F64 := ar.round (a.sub b)

def mul (ar : Arithmetic) (a b : F64) : F64 := ar.round (a.mul b)

def div (ar : Arithmetic) (a b : F64) : F64 := ar.round (a.div b)

end Arithmetic

/-- `LobFilter`. The program has the filters with `.double` arithmetic only. -/
inductive LobFilter where
  | maxLevelPct (pct : F64) (ar : Arithmetic := .double)
  | maxLevel (max : ℕ)
deriving DecidableEq

namespace LobFilter

/-- The lowest bid that is within `pct` percent of `best`. -/
def bidThreshold (ar : Arithmetic) (pct best : F64) : F64 :=
  ar.mul (ar.round best) (ar.sub (.fin 1) (ar.div (ar.round pct) (.fin 100)))

/-- The highest ask that is within `pct` percent of `best`. -/
def askThreshold (ar : Arithmetic) (pct best : F64) : F64 :=
  ar.mul (ar.round best) (ar.add (.fin 1) (ar.div (ar.round pct) (.fin 100)))

def shouldInclude (self : LobFilter) (bestBid bestAsk : Option F64) (price amount : F64)
    (sideIsBid : Bool) (currentLevelsOnSide : ℕ) (priceExists : Bool) : Bool :=
  if amount.eq F64.zero then true
  else match self with
    | maxLevelPct pct ar =>
      match if sideIsBid then bestBid else bestAsk with
      | none => true
      | some bestPrice =>
        if sideIsBid then (ar.round price).ge (bidThreshold ar pct bestPrice)
        else (ar.round price).le (askThreshold ar pct bestPrice)
    | maxLevel max => if priceExists then true else decide (currentLevelsOnSide < max)

-- The ask 60060 and the ask 10.01, exactly on the edge.
example :
    (F64.fin 60060).round.le (askThreshold .double (.fin (1 / 10)) (.fin 60000)) = false ∧
      (F64.fin (1001 / 100)).round.le (askThreshold .double (.fin (1 / 10)) (.fin 10)) = false := by
  decide +kernel

/-- A removal passes every filter. -/
theorem shouldInclude_zero {f : LobFilter} {bb ba : Option F64} {price amount : F64} {isBid : Bool}
    {count : ℕ} {present : Bool} (h : amount.eq F64.zero = true) :
    f.shouldInclude bb ba price amount isBid count present = true := by
  simp [shouldInclude, h]

theorem shouldInclude_maxLevel {n : ℕ} {bb ba : Option F64} {price amount : F64} {isBid : Bool}
    {count : ℕ} {present : Bool} :
    (maxLevel n).shouldInclude bb ba price amount isBid count present
      = (amount.eq F64.zero || present || decide (count < n)) := by
  cases h : amount.eq F64.zero <;> cases present <;> simp [shouldInclude, h]

end LobFilter

end Cryptomeria
