import Cryptomeria.Lob.Book
import Cryptomeria.Num.Text

/-!
# The gauges

`LobMetrics` of `traits/mod.rs`: a gauge vector is a map from label values to a number, and
`/metrics` reads the vectors back. `depthEntries` is the `depth` array that the endpoint builds for
one exchange and instrument. `trades_per_second` is left out.
-/

set_option autoImplicit false

namespace Cryptomeria

/-- `GaugeVec`: the value of each tuple of label values that was ever set. -/
abbrev GaugeVec := Std.ExtTreeMap (List String) F64

/-- `IntGaugeVec` -/
abbrev IntGaugeVec := Std.ExtTreeMap (List String) ℕ

/-- `with_label_values(labels).inc()` -/
def IntGaugeVec.inc (g : IntGaugeVec) (labels : List String) : IntGaugeVec :=
  g.insert labels ((g[labels]?).getD 0 + 1)

structure LobMetrics where
  bestBid : GaugeVec := ∅
  bestAsk : GaugeVec := ∅
  spread : GaugeVec := ∅
  lastUpdate : GaugeVec := ∅
  tradesTotal : IntGaugeVec := ∅
  lobDepthBid : GaugeVec := ∅
  lobDepthAsk : GaugeVec := ∅

/-- An element of the `depth` array of `/metrics`. -/
structure DepthEntry where
  price : F64
  volume : F64
  side : Side
deriving DecidableEq

namespace LobMetrics

def depth (lm : LobMetrics) : Side → GaugeVec
  | .bid => lm.lobDepthBid
  | .ask => lm.lobDepthAsk

/-- What one depth gauge is read as. -/
def depthEntry (exchange instrument : String) (s : Side) : List String × F64 → Option DepthEntry :=
  fun (labels, volume) =>
    match labels with
    | [ex, inst, price] =>
      if ex = exchange ∧ inst = instrument then
        some { price := (parseF64 price).getD F64.zero, volume, side := s }
      else none
    | _ => none

/-- The entries of the depth gauges of a side that carry these labels. -/
def sideEntries (lm : LobMetrics) (exchange instrument : String) (s : Side) : List DepthEntry :=
  (lm.depth s).toList.filterMap (depthEntry exchange instrument s)

/-- Bids first and highest first, then asks, lowest first. -/
def depthBefore (a b : DepthEntry) : Bool :=
  match a.side, b.side with
  | .bid, .bid => !b.price.gt a.price
  | .ask, .ask => !b.price.lt a.price
  | .bid, .ask => true
  | .ask, .bid => false

/-- The `depth` array. Metrics with an empty exchange or instrument label are skipped. -/
def depthEntries (lm : LobMetrics) (exchange instrument : String) : List DepthEntry :=
  if exchange = "" ∨ instrument = "" then []
  else
    -- the families are gathered in the order of their names
    (lm.sideEntries exchange instrument .ask ++ lm.sideEntries exchange instrument .bid).mergeSort
      depthBefore

section Entries

variable {lm : LobMetrics} {exchange instrument : String} {s : Side} {e : DepthEntry}

theorem depthEntry_eq_some_iff {labels : List String} {v : F64} :
    depthEntry exchange instrument s (labels, v) = some e ↔
      ∃ price, labels = [exchange, instrument, price] ∧
        e = { price := (parseF64 price).getD F64.zero, volume := v, side := s } := by
  constructor
  · intro h
    simp only [depthEntry] at h
    split at h
    · rename_i ex inst price
      split at h
      · rename_i hlabels
        obtain ⟨rfl, rfl⟩ := hlabels
        exact ⟨price, rfl, (Option.some.inj h).symm⟩
      · simp at h
    · simp at h
  · rintro ⟨price, rfl, rfl⟩
    simp [depthEntry]

theorem mem_sideEntries :
    e ∈ lm.sideEntries exchange instrument s ↔ ∃ price v,
      (lm.depth s)[[exchange, instrument, price]]? = some v ∧
        e = { price := (parseF64 price).getD F64.zero, volume := v, side := s } := by
  simp only [sideEntries, List.mem_filterMap, Prod.exists, depthEntry_eq_some_iff,
    Std.ExtTreeMap.mem_toList_iff_getElem?_eq_some]
  constructor
  · rintro ⟨_, v, hv, price, rfl, rfl⟩
    exact ⟨price, v, hv, rfl⟩
  · rintro ⟨price, v, hv, rfl⟩
    exact ⟨_, v, hv, price, rfl, rfl⟩

theorem mem_depthEntries (he : exchange ≠ "") (hi : instrument ≠ "") :
    e ∈ lm.depthEntries exchange instrument ↔ ∃ price v,
      (lm.depth e.side)[[exchange, instrument, price]]? = some v ∧
        e.price = (parseF64 price).getD F64.zero ∧ e.volume = v := by
  rw [depthEntries, if_neg (by simp [he, hi]), List.mem_mergeSort, List.mem_append,
    mem_sideEntries, mem_sideEntries]
  obtain ⟨p, v, s⟩ := e
  cases s <;> simp

end Entries

end LobMetrics

end Cryptomeria
