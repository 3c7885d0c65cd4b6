import Cryptomeria.Json
import Cryptomeria.Lob.Book

/-!
# OKX messages

`okx/types.rs`: the envelope, its classification, and the derived structs that the client reads
from a data element.
-/

set_option autoImplicit false

namespace Cryptomeria
namespace Okx

structure ChannelArg where
  channel : String
  instId : String

structure OkxWsMessage where
  arg : Option ChannelArg := none
  action : Option String := none
  data : List Value := []
  event : Option String := none

inductive MessageType where
  | l2Snapshot
  | l2Update
  | l2
  | trade
  | event
  | unknown
deriving DecidableEq

namespace OkxWsMessage

def messageType (self : OkxWsMessage) : MessageType :=
  if self.event.isSome then .event
  else match self.arg with
    | some arg =>
      if arg.channel = "books" then
        if self.action = some "snapshot" then .l2Snapshot
        else if self.action = some "update" then .l2Update
        else .l2
      else if arg.channel = "trades" then .trade
      else .unknown
    | none => .unknown

/-- `data[0].ts`, a string of milliseconds. -/
def timestampMs (self : OkxWsMessage) : Option ℕ := do
  let d ← self.data.head?
  let ts ← d.get "ts"
  let rawTs ← ts.asStr
  parseU64 rawTs

end OkxWsMessage

/-- Fields of a trade. -/
structure TradeData where
  instId : String := ""
  tradeId : String := ""
  px : String := ""
  sz : String := ""
  side : String := ""
  ts : String := ""

open Value in
def TradeData.ofValue (v : Value) : Option TradeData := do
  match ← structFields ["instId", "tradeId", "px", "sz", "side", "ts"] v with
  | [instId, tradeId, px, sz, side, ts] =>
    return { instId := ← fieldOr "" readString instId
             tradeId := ← fieldOr "" readString tradeId
             px := ← fieldOr "" readString px
             sz := ← fieldOr "" readString sz
             side := ← fieldOr "" readString side
             ts := ← fieldOr "" readString ts }
  | _ => none

/-- A single price level: `[price, size, count, orders]`. -/
structure LobLevel where
  price : String := ""
  size : String := ""
  count : String := ""
  orders : String := ""

open Value in
def LobLevel.ofValue (v : Value) : Option LobLevel := do
  match ← structFields ["price", "size", "count", "orders"] v with
  | [price, size, count, orders] =>
    return { price := ← fieldOr "" readString price
             size := ← fieldOr "" readString size
             count := ← fieldOr "" readString count
             orders := ← fieldOr "" readString orders }
  | _ => none

/-- All fields as numbers; `count` and `orders` fall back to zero, `price` and `size` do not. -/
def LobLevel.asF64 (self : LobLevel) : Option (F64 × F64 × F64 × F64) := do
  let price ← parseF64 self.price
  let size ← parseF64 self.size
  return (price, size, (parseF64 self.count).getD F64.zero, (parseF64 self.orders).getD F64.zero)

/-- A snapshot or an update. -/
structure LobData where
  bids : List LobLevel := []
  asks : List LobLevel := []
  ts : String := ""
  checksum : ℤ := 0

open Value in
def LobData.ofValue (v : Value) : Option LobData := do
  match ← structFields ["bids", "asks", "ts", "checksum"] v with
  | [bids, asks, ts, checksum] =>
    return { bids := ← fieldOr [] (readVec LobLevel.ofValue) bids
             asks := ← fieldOr [] (readVec LobLevel.ofValue) asks
             ts := ← fieldOr "" readString ts
             checksum := ← fieldOr 0 readI64 checksum }
  | _ => none

namespace OkxWsMessage

def lobSnapshot (self : OkxWsMessage) : Option LobData :=
  if self.action ≠ some "snapshot" then none else self.data.head?.bind LobData.ofValue

def lobUpdate (self : OkxWsMessage) : Option LobData :=
  if self.action ≠ some "update" then none else self.data.head?.bind LobData.ofValue

/-- `(side, level)` pairs for persistence, bids first. -/
def lobLevels (self : OkxWsMessage) : List (Side × LobLevel) :=
  match self.lobSnapshot.or self.lobUpdate with
  | some d => d.bids.map (Prod.mk .bid) ++ d.asks.map (Prod.mk .ask)
  | none => []

end OkxWsMessage

end Okx
end Cryptomeria
