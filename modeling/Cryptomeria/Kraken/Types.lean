import Cryptomeria.Json
import Cryptomeria.Lob.Book

/-!
# Kraken messages

`kraken/types.rs`. The RFC 3339 reading of a timestamp is the `chrono` crate's; it stands here as
a parameter, `rfc3339`, that answers the milliseconds of the timestamp.
-/

set_option autoImplicit false

namespace Cryptomeria
namespace Kraken

structure KrakenWsMessage where
  channel : Option String := none
  msgType : Option String := none
  data : List Value := []
  method : Option String := none
  success : Option Bool := none
  error : Option Value := none

inductive MessageType where
  | l2Snapshot
  | l2Update
  | l2
  | trade
  | heartbeat
  | status
  | event
  | unknown
deriving DecidableEq

/-- `parse_kraken_timestamp`: RFC 3339, else seconds. -/
def parseKrakenTimestamp (rfc3339 : String → Option ℤ) (ts : String) : Option ℕ :=
  match rfc3339 ts with
  | some ms => some (ms % 2 ^ 64).toNat
  | none => (parseF64 ts).map fun f => (f.mul (.fin 1000)).toU64

namespace KrakenWsMessage

def messageType (self : KrakenWsMessage) : MessageType :=
  match self.channel with
  | some channel =>
    if channel = "book" then
      if self.msgType = some "snapshot" then .l2Snapshot
      else if self.msgType = some "update" then .l2Update
      else .l2
    else if channel = "trade" then .trade
    else if channel = "heartbeat" then .heartbeat
    else if channel = "status" then .status
    else .unknown
  | none => if self.method.isSome then .event else .unknown

def timestampMs (rfc3339 : String → Option ℤ) (self : KrakenWsMessage) : Option ℕ := do
  let d ← self.data.head?
  let ts ← d.get "timestamp"
  let rawTs ← ts.asStr
  parseKrakenTimestamp rfc3339 rawTs

end KrakenWsMessage

structure TradeData where
  symbol : String := ""
  side : String := ""
  price : F64 := F64.zero
  qty : F64 := F64.zero
  tradeId : String := ""
  timestamp : String := ""

open Value in
def TradeData.ofValue (v : Value) : Option TradeData := do
  match ← structFields ["symbol", "side", "price", "qty", "trade_id", "timestamp"] v with
  | [symbol, side, price, qty, tradeId, timestamp] =>
    return { symbol := ← fieldOr "" readString symbol
             side := ← fieldOr "" readString side
             price := ← fieldOr F64.zero readF64 price
             qty := ← fieldOr F64.zero readF64 qty
             tradeId := ← fieldOr "" readNumberOrString tradeId
             timestamp := ← fieldOr "" readString timestamp }
  | _ => none

structure LobLevel where
  price : F64 := F64.zero
  qty : F64 := F64.zero

open Value in
def LobLevel.ofValue (v : Value) : Option LobLevel := do
  match ← structFields ["price", "qty"] v with
  | [price, qty] =>
    return { price := ← fieldOr F64.zero readF64 price
             qty := ← fieldOr F64.zero readF64 qty }
  | _ => none

structure LobData where
  symbol : String := ""
  bids : List LobLevel := []
  asks : List LobLevel := []
  checksum : ℤ := 0
  timestamp : String := ""

open Value in
def LobData.ofValue (v : Value) : Option LobData := do
  match ← structFields ["symbol", "bids", "asks", "checksum", "timestamp"] v with
  | [symbol, bids, asks, checksum, timestamp] =>
    return { symbol := ← fieldOr "" readString symbol
             bids := ← fieldOr [] (readVec LobLevel.ofValue) bids
             asks := ← fieldOr [] (readVec LobLevel.ofValue) asks
             checksum := ← fieldOr 0 readI64 checksum
             timestamp := ← fieldOr "" readString timestamp }
  | _ => none

namespace KrakenWsMessage

def lobSnapshot (self : KrakenWsMessage) : Option LobData :=
  if self.msgType ≠ some "snapshot" ∨ self.channel ≠ some "book" then none
  else self.data.head?.bind LobData.ofValue

def lobUpdate (self : KrakenWsMessage) : Option LobData :=
  if self.msgType ≠ some "update" ∨ self.channel ≠ some "book" then none
  else self.data.head?.bind LobData.ofValue

def lobLevels (self : KrakenWsMessage) : List (Side × LobLevel) :=
  match self.lobSnapshot.or self.lobUpdate with
  | some d => d.bids.map (Prod.mk .bid) ++ d.asks.map (Prod.mk .ask)
  | none => []

end KrakenWsMessage

end Kraken
end Cryptomeria
