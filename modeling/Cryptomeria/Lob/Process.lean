import Cryptomeria.Lob.Book
import Cryptomeria.Json

/-!
# Snapshot and update, as OKX and Kraken apply them

`okx/lob.rs` and `kraken/lob.rs` are one algorithm over two kinds of raw level. A raw level is
read twice: `view` is what the pre-filter sees of it and `parse` is what is applied. OKX uses
`parse_level` for both; Kraken filters on the numbers themselves and calls `parse_level` only
when it applies them.

A level that the percentage filter cannot read is kept (the apply loops skip it); the `MaxLevel`
snapshot filter drops it.
-/

set_option autoImplicit false

namespace Cryptomeria
namespace Lob

variable {L : Type}

/-- Clears the side, then stores the positive levels. -/
def applySnapshot (parse : L → Option (F64 × F64)) (data : List L) (side : Side)
    (self : OrderBook) : OrderBook :=
  self.setSide side (data.foldl (fun m level =>
    match parse level with
    | some (price, amount) => if amount.gt F64.zero then m.insert price amount else m
    | none => m) ∅)

/-- Size zero removes the price, any other size is stored. -/
def applyUpdate (parse : L → Option (F64 × F64)) (data : List L) (side : Side)
    (self : OrderBook) : OrderBook :=
  self.setSide side (data.foldl (fun m level =>
    match parse level with
    | some (price, amount) =>
      if amount.eq F64.zero then m.erase price else m.insert price amount
    | none => m) (self.side side))

/-- The best price of a batch, zero sizes included. -/
def findBestPrice (view : L → Option (F64 × F64)) (levels : List L) (side : Side) : Option F64 :=
  levels.foldl (fun best level =>
    match view level with
    | some (price, _) => if best.all fun b => side.beats price b then some price else best
    | none => best) none

def filterSnapshotLevels (view : L → Option (F64 × F64)) (self : OrderBook) (levels : List L)
    (side : Side) (filter : LobFilter) (batchBest : Option F64) : List L :=
  match filter with
  | .maxLevelPct _ _ =>
    let bestBid := if side = .bid then batchBest else self.bestBid
    let bestAsk := if side = .ask then batchBest else self.bestAsk
    levels.filter fun level =>
      match view level with
      | some (price, amount) =>
        filter.shouldInclude bestBid bestAsk price amount (side = .bid) 0 false
      | none => true
  | .maxLevel max =>
    let parsed := levels.filterMap fun level =>
      (view level).map fun (price, amount) => (price, amount, level)
    let parsed := parsed.filter fun (_, amount, _) => amount.gt F64.zero
    -- `sort_by` with `partial_cmp`: in front unless the other one is strictly better
    let parsed := parsed.mergeSort fun x y => !side.beats y.1 x.1
    (parsed.take max).map fun (_, _, level) => level

def filterLevels (view : L → Option (F64 × F64)) (self : OrderBook) (levels : List L)
    (side : Side) (filter : LobFilter) : List L :=
  levels.filter fun level =>
    match view level with
    | some (price, amount) =>
      filter.shouldInclude self.bestBid self.bestAsk price amount (side = .bid)
        (self.side side).size ((self.side side).contains price)
    | none => true

/-- One side of a message: the body of the loop of `process_msg`. -/
def processSide (view parse : L → Option (F64 × F64)) (action : String)
    (filter : Option LobFilter) (self : OrderBook) (side : Side) (levels : List L) : OrderBook :=
  if levels.isEmpty then self
  else
    let levels := match filter with
      | some f =>
        if action = "snapshot" then
          filterSnapshotLevels view self levels side f (findBestPrice view levels side)
        else filterLevels view self levels side f
      | none => levels
    if levels.isEmpty then self
    else if action = "snapshot" then applySnapshot parse levels side self
    else if action = "update" then applyUpdate parse levels side self
    else self

/-- `process_msg`: the first data element, bids and then asks; without an action the message
counts as a snapshot. -/
def processMsg (view parse : L → Option (F64 × F64)) (parseLevels : Value → String → List L)
    (data : List Value) (action : Option String) (filter : Option LobFilter)
    (self : OrderBook) : OrderBook :=
  match data.head? with
  | none => self
  | some d =>
    let action := action.getD "snapshot"
    [("bids", Side.bid), ("asks", Side.ask)].foldl (fun self (key, side) =>
      processSide view parse action filter self side (parseLevels d key)) self

end Lob
end Cryptomeria
