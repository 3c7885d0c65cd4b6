import Cryptomeria.Json
import Cryptomeria.Lob.Book

/-!
# Bitstamp messages

`bitstamp/types.rs`. The channel decides what a `data` event is; the payload is read at up to
three types, tried in turn.
-/

set_option autoImplicit false

namespace Cryptomeria
namespace Bitstamp

structure BitstampWsMessage where
  event : Option String := none
  channel : Option String := none
  data : Option Value := none

inductive MessageType where
  | l2Snapshot
  | l2Update
  | trade
  | event
  | unknown
deriving DecidableEq

/-- A single order book entry. -/
structure OrderEntry where
  id : ℕ := 0
  idStr : String := ""
  price : String := ""
  amount : String := ""
  /-- 0 = bid, 1 = ask -/
  orderType : ℤ := 0
  timestamp : String := ""

open Value in
def OrderEntry.ofValue (v : Value) : Option OrderEntry := do
  match ← structFields ["id", "id_str", "price", "amount", "type", "timestamp"] v with
  | [id, idStr, price, amount, orderType, timestamp] =>
    return { id := ← fieldOr 0 readU64 id
             idStr := ← fieldOr "" readString idStr
             price := ← fieldOr "" readNumberOrString price
             amount := ← fieldOr "" readNumberOrString amount
             orderType := ← fieldOr 0 readNumberOrZero orderType
             timestamp := ← fieldOr "" readString timestamp }
  | _ => none

structure TradeData where
  id : ℕ := 0
  price : String := ""
  amount : String := ""
  /-- 0 = buy, 1 = sell -/
  tradeType : ℤ := 0
  timestamp : String := ""
  microtimestamp : String := ""
  buyOrderId : ℤ := 0
  sellOrderId : ℤ := 0

open Value in
def TradeData.ofValue (v : Value) : Option TradeData := do
  match ← structFields ["id", "price", "amount", "type", "timestamp", "microtimestamp",
      "buy_order_id", "sell_order_id"] v with
  | [id, price, amount, tradeType, timestamp, microtimestamp, buyOrderId, sellOrderId] =>
    return { id := ← fieldOr 0 readU64 id
             price := ← fieldOr "" readNumberOrString price
             amount := ← fieldOr "" readNumberOrString amount
             tradeType := ← fieldOr 0 readNumberOrZero tradeType
             timestamp := ← fieldOr "" readString timestamp
             microtimestamp := ← fieldOr "" readString microtimestamp
             buyOrderId := ← fieldOr 0 readI64 buyOrderId
             sellOrderId := ← fieldOr 0 readI64 sellOrderId }
  | _ => none

/-- A price level for persistence. -/
structure LobLevel where
  price : String
  size : String

/-- The arrays of the `order_book` and `diff_order_book` channels, and of the REST snapshot. -/
structure OrderBookData where
  bids : List (String × String) := []
  asks : List (String × String) := []
  timestamp : String := ""
  microtimestamp : String := ""

open Value in
def OrderBookData.ofValue (v : Value) : Option OrderBookData := do
  match ← structFields ["bids", "asks", "timestamp", "microtimestamp"] v with
  | [bids, asks, timestamp, microtimestamp] =>
    return { bids := ← fieldOr [] (readVec readStringPair) bids
             asks := ← fieldOr [] (readVec readStringPair) asks
             timestamp := ← fieldOr "" readString timestamp
             microtimestamp := ← fieldOr "" readString microtimestamp }
  | _ => none

/-- `serde_json::to_value` of the derived `Serialize`. -/
def OrderBookData.toValue (self : OrderBookData) : Value :=
  let pairs (levels : List (String × String)) : Value :=
    .array (levels.map fun (a, b) => .array [.string a, .string b])
  .object [("bids", pairs self.bids), ("asks", pairs self.asks),
    ("timestamp", .string self.timestamp), ("microtimestamp", .string self.microtimestamp)]

namespace BitstampWsMessage

def messageType (self : BitstampWsMessage) : MessageType :=
  match self.event with
  | some event =>
    if event = "order_created" ∨ event = "order_deleted" ∨ event = "order_changed" then .l2Update
    else if event = "snapshot" then .l2Snapshot
    else if event = "data" then
      match self.channel with
      | some channel =>
        if channel.startsWith "order_book_" || channel.startsWith "diff_order_book_"
            || channel.startsWith "live_orders_" then .l2Update
        else .unknown
      | none => .unknown
    else if event = "trade" ∨ event = "live_trades" then .trade
    else if event = "bts:subscription_succeeded" ∨ event = "bts:unsubscription_succeeded" then
      .event
    else match self.channel with
      | some channel => if channel.startsWith "live_orders_" then .l2Update else .event
      | none => .event
  | none => .unknown

/-- The microtimestamp of an order book payload, else of a trade payload. -/
def microtimestampUs (self : BitstampWsMessage) : Option ℕ := do
  let data ← self.data
  ((OrderBookData.ofValue data).bind fun ob => parseU64 ob.microtimestamp).or
    ((TradeData.ofValue data).bind fun trade => parseU64 trade.microtimestamp)

/-- Seconds of an order entry, else of a trade, in milliseconds. -/
def timestampMs (self : BitstampWsMessage) : Option ℕ := do
  let data ← self.data
  let seconds (ts : String) : Option ℕ := (parseF64 ts).map fun secs => (secs.mul (.fin 1000)).toU64
  ((OrderEntry.ofValue data).bind fun entry =>
      (seconds entry.timestamp).or (parseU64 entry.timestamp)).or
    ((TradeData.ofValue data).bind fun trade => seconds trade.timestamp)

/-- Levels for persistence: those of the arrays, or the one order of the entry. -/
def lobLevels (self : BitstampWsMessage) : List (Side × LobLevel) :=
  match self.data with
  | none => []
  | some data =>
    match (OrderBookData.ofValue data).filter fun ob => !ob.bids.isEmpty || !ob.asks.isEmpty with
    | some ob =>
      ob.bids.map (fun (price, size) => (.bid, { price, size })) ++
        ob.asks.map (fun (price, size) => (.ask, { price, size }))
    | none =>
      match OrderEntry.ofValue data with
      | some entry =>
        [(if entry.orderType = 0 then .bid else .ask,
          { price := entry.price, size := entry.amount })]
      | none => []

end BitstampWsMessage

/-! ## A payload survives the trip through `Value` -/

theorem readVec_pairs (levels : List (String × String)) :
    Value.readVec Value.readStringPair
      (.array (levels.map fun (a, b) => .array [.string a, .string b])) = some levels := by
  simp only [Value.readVec]
  induction levels with
  | nil => rfl
  | cons l ls ih =>
    obtain ⟨a, b⟩ := l
    simp only [List.map_cons, List.mapM_cons, ih, Value.readStringPair]
    rfl

theorem OrderBookData.ofValue_toValue (ob : OrderBookData) : ofValue ob.toValue = some ob := by
  obtain ⟨bids, asks, ts, mts⟩ := ob
  have hb := readVec_pairs bids
  have ha := readVec_pairs asks
  simp only [ofValue, toValue, Value.structFields, List.map_cons, List.map_nil]
  simp [List.lookup, Value.fieldOr, hb, ha, Value.readString, Value.asStr]

end Bitstamp
end Cryptomeria
