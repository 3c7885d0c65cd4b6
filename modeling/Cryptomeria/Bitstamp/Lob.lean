import Cryptomeria.Bitstamp.Types

/-!
# The Bitstamp order book

`bitstamp/lob.rs`. Besides the two sides the book tracks the single orders of the `live_orders`
channel and keeps the depth of its snapshots. The pre-filter of a diff counts the levels it has
let through, so its answer for a level depends on the levels before it in the same diff.
-/

set_option autoImplicit false

namespace Cryptomeria
namespace Bitstamp

structure OrderInfo where
  price : F64
  size : F64
  side : Side
deriving DecidableEq

structure OrderBook extends Cryptomeria.OrderBook where
  orders : Std.ExtTreeMap ℕ OrderInfo := ∅
  snapshotDepth : ℕ := 400

/-- `[price, amount]` of an array level, both as numbers. -/
def parseLevel (level : String × String) : Option (F64 × F64) := do
  let price ← parseF64 level.1
  let amount ← parseF64 level.2
  return (price, amount)

namespace OrderBook

def withSnapshotDepth (depth : ℕ) : OrderBook := { snapshotDepth := depth }

def new : OrderBook := withSnapshotDepth 400

/-- The sizes of the tracked orders at a price, added up. -/
def orderTotal (self : OrderBook) (side : Side) (price : F64) : F64 :=
  F64.sum ((self.orders.toList.filter fun (_, o) => o.side == side && o.price == price).map
    fun (_, o) => o.size)

def rebuildPriceLevel (self : OrderBook) (side : Side) (price : F64) : OrderBook :=
  let total := self.orderTotal side price
  let m := self.toOrderBook.side side
  let m := if total.eq F64.zero then m.erase price else m.insert price total
  { self with toOrderBook := self.toOrderBook.setSide side m }

def insertOrder (self : OrderBook) (id : ℕ) (info : OrderInfo) : OrderBook :=
  { self with orders := self.orders.insert id info }

def removeOrder (self : OrderBook) (id : ℕ) : OrderBook :=
  { self with orders := self.orders.erase id }

/-- A single order entry: amount zero removes the order, any other amount amends a known order,
and an unknown order is added when its amount is positive. -/
def applyOrder (self : OrderBook) (entry : OrderEntry) : OrderBook :=
  match parseF64 entry.price, parseF64 entry.amount with
  | some price, some amount =>
    let side : Side := if entry.orderType = 0 then .bid else .ask
    match self.orders[entry.id]? with
    | some existing =>
      let oldPrice := existing.price
      let oldSide := existing.side
      if amount.eq F64.zero then
        (self.removeOrder entry.id).rebuildPriceLevel oldSide oldPrice
      else if oldPrice ≠ price ∨ oldSide ≠ side then
        ((self.insertOrder entry.id { price, size := amount, side }).rebuildPriceLevel
          oldSide oldPrice).rebuildPriceLevel side price
      else (self.insertOrder entry.id { price, size := amount, side }).rebuildPriceLevel side price
    | none =>
      if amount.gt F64.zero then
        (self.insertOrder entry.id { price, size := amount, side }).rebuildPriceLevel side price
      else self
  | _, _ => self

/-! ## Filters -/

/-- The price of the first level with a positive amount. -/
def firstPositive (levels : List (String × String)) : Option F64 :=
  levels.findSome? fun level =>
    (parseLevel level).bind fun (price, amount) =>
      if amount.gt F64.zero then some price else none

/-- One side of a snapshot: positive levels that the filter includes, counted from zero. -/
def filterSnapshotSide (filter : LobFilter) (bestBid bestAsk : Option F64) (side : Side)
    (levels : List (String × String)) : List (String × String) :=
  (levels.foldl (fun (filtered, count) level =>
    match parseLevel level with
    | some (price, amount) =>
      if amount.gt F64.zero
          && filter.shouldInclude bestBid bestAsk price amount (side = .bid) count false then
        (filtered ++ [level], count + 1)
      else (filtered, count)
    | none => (filtered, count)) (([], 0) : List (String × String) × ℕ)).1

def filterSnapshot (self : OrderBook) (ob : OrderBookData) (filter : LobFilter) : OrderBookData :=
  let bidBest := (firstPositive ob.bids).or self.bestBid
  let askBest := (firstPositive ob.asks).or self.bestAsk
  { bids := filterSnapshotSide filter bidBest askBest .bid ob.bids
    asks := filterSnapshotSide filter bidBest askBest .ask ob.asks
    timestamp := ob.timestamp
    microtimestamp := ob.microtimestamp }

/-- One side of a diff. The count starts at the levels held and grows with every included level
whose price is not held, removals among them. -/
def filterDiffSide (self : OrderBook) (filter : LobFilter) (side : Side)
    (levels : List (String × String)) : List (String × String) :=
  let held := self.toOrderBook.side side
  (levels.foldl (fun (filtered, count) level =>
    match parseLevel level with
    | some (price, amount) =>
      let priceExists := held.contains price
      if filter.shouldInclude self.bestBid self.bestAsk price amount (side = .bid) count
          priceExists then
        (filtered ++ [level], if priceExists then count else count + 1)
      else (filtered, count)
    | none => (filtered, count)) (([], held.size) : List (String × String) × ℕ)).1

def filterDiff (self : OrderBook) (ob : OrderBookData) (filter : LobFilter) : OrderBookData :=
  { bids := self.filterDiffSide filter .bid ob.bids
    asks := self.filterDiffSide filter .ask ob.asks
    timestamp := ob.timestamp
    microtimestamp := ob.microtimestamp }

def filterOrderEntry (self : OrderBook) (entry : OrderEntry) (filter : LobFilter) :
    Option OrderEntry := do
  let price ← parseF64 entry.price
  let amount ← parseF64 entry.amount
  let side : Side := if entry.orderType = 0 then .bid else .ask
  let held := self.toOrderBook.side side
  if filter.shouldInclude self.bestBid self.bestAsk price amount (side = .bid) held.size
      (held.contains price) then
    some entry
  else none

/-! ## Application -/

/-- One side of a snapshot: the positive levels among the first `depth`. -/
def snapshotSide (depth : ℕ) (side : Side) (levels : List (String × String)) : Levels side :=
  (levels.take depth).foldl (fun m level =>
    match parseLevel level with
    | some (price, amount) => if amount.gt F64.zero then m.insert price amount else m
    | none => m) ∅

/-- Clears everything, then stores the first levels of both sides. -/
def applySnapshot (self : OrderBook) (ob : OrderBookData) : OrderBook :=
  { orders := ∅
    bids := snapshotSide self.snapshotDepth .bid ob.bids
    asks := snapshotSide self.snapshotDepth .ask ob.asks
    snapshotDepth := self.snapshotDepth }

/-- One side of a diff: size zero removes the price, any other size is stored. -/
def diffSide {side : Side} (m : Levels side) (levels : List (String × String)) : Levels side :=
  levels.foldl (fun m level =>
    match parseLevel level with
    | some (price, amount) =>
      if amount.eq F64.zero then m.erase price else m.insert price amount
    | none => m) m

def applyDiff (self : OrderBook) (ob : OrderBookData) : OrderBook :=
  { self with
    bids := diffSide self.bids ob.bids
    asks := diffSide self.asks ob.asks }

/-- `OrderBook::process_msg` -/
def processMsg (msg : BitstampWsMessage) (filter : Option LobFilter) (self : OrderBook) :
    OrderBook :=
  match msg.data with
  | none => self
  | some data =>
    match msg.messageType with
    | .l2Snapshot =>
      match OrderBookData.ofValue data with
      | some ob =>
        match filter with
        | some f => self.applySnapshot (self.filterSnapshot ob f)
        | none => self.applySnapshot ob
      | none => self
    | .l2Update =>
      match msg.channel with
      | some channel =>
        if channel.startsWith "live_orders_" then
          match OrderEntry.ofValue data with
          | some entry =>
            match filter with
            | some f =>
              match self.filterOrderEntry entry f with
              | some filtered => self.applyOrder filtered
              | none => self
            | none => self.applyOrder entry
          | none => self
        else
          match OrderBookData.ofValue data with
          | some ob =>
            match filter with
            | some f => self.applyDiff (self.filterDiff ob f)
            | none => self.applyDiff ob
          | none => self
      | none => self
    | _ => self

end OrderBook

/-- A message of the `diff_order_book` channel with these levels. -/
def bookMsg (event : String) (bids asks : List (String × String)) : BitstampWsMessage :=
  { event := some event
    channel := some "diff_order_book_btcusd"
    data := some (OrderBookData.toValue { bids, asks }) }

end Bitstamp
end Cryptomeria
