import Cryptomeria.Okx.Types

/-!
# Rows

The rows that `db/mod.rs` writes to the two tables. Buffer and sender belong to the `questdb`
crate; a call of `persist_lob` or `persist_trade` writes all its rows or, when the crate reports an
error, none.
-/

set_option autoImplicit false

namespace Cryptomeria

/-- `(ts_ms as i64) * 1_000_000`, in 64 bits. -/
def timestampNanos (tsMs : ℕ) : ℤ := ((tsMs : ℤ).bmod (2 ^ 64) * 1000000).bmod (2 ^ 64)

/-- A row of `lob_levels`. -/
structure LobLevelRow where
  instId : String
  exchange : String
  action : String
  side : Side
  price : F64
  size : F64
  count : F64
  orders : F64
  bestDiff : F64
  timestamp : ℤ

/-- A row of `trades`. -/
structure TradeRow where
  instId : String
  exchange : String
  tradeId : String
  side : String
  px : F64
  sz : F64
  timestamp : ℤ

/-- A level that cannot be read is written with zeros. -/
def writeLobLevel (instId exchange : String) (tsMs : ℕ) (action : String) (side : Side)
    (level : Okx.LobLevel) (bestBid bestAsk : Option F64) : LobLevelRow :=
  let (price, size, count, orders) :=
    level.asF64.getD (F64.zero, F64.zero, F64.zero, F64.zero)
  let bestDiff := match side with
    | .bid => (bestBid.map fun bb => bb.sub price).getD F64.zero
    | .ask => (bestAsk.map fun ba => price.sub ba).getD F64.zero
  { instId, exchange, action, side, price, size, count, orders, bestDiff
    timestamp := timestampNanos tsMs }

/-- The rows of `persist_lob`. -/
def lobRows (instId exchange : String) (tsMs : ℕ) (action : String)
    (levels : List (Side × Okx.LobLevel)) (bestBid bestAsk : Option F64) : List LobLevelRow :=
  levels.map fun (side, level) =>
    writeLobLevel instId exchange tsMs action side level bestBid bestAsk

/-- `db::TradeData` -/
structure TradeData where
  instId : String
  exchange : String
  tradeId : String
  px : F64
  sz : F64
  side : String
  tsMs : ℕ

/-- The row of `persist_trade`. -/
def TradeData.row (trade : TradeData) : TradeRow :=
  { instId := trade.instId, exchange := trade.exchange, tradeId := trade.tradeId
    side := trade.side, px := trade.px, sz := trade.sz, timestamp := timestampNanos trade.tsMs }

end Cryptomeria
