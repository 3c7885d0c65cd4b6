import Cryptomeria.Okx.Types
import Cryptomeria.Lob.Process

/-!
# The OKX order book

`okx/lob.rs`: how a level is taken out of a data element, and the shared algorithm at that kind
of level.
-/

set_option autoImplicit false

namespace Cryptomeria
namespace Okx

/-- A raw price level: `[price, size, ...]`. -/
abbrev PriceLevel := List String

/-- The arrays under `key`, each with its string elements only. -/
def parseLevels (data : Value) (key : String) : List PriceLevel :=
  (((data.get key).bind Value.asArray).map fun arr =>
    arr.filterMap fun v => v.asArray.map fun a => a.filterMap Value.asStr).getD []

def parseLevel (level : PriceLevel) : Option (F64 × F64) := do
  let price ← level[0]?.bind parseF64
  let amount ← level[1]?.bind parseF64
  return (price, amount)

/-- `OrderBook::process_msg` -/
def processMsg (msg : OkxWsMessage) (filter : Option LobFilter) (self : OrderBook) : OrderBook :=
  Lob.processMsg parseLevel parseLevel parseLevels msg.data msg.action filter self

/-- A message of the `books` channel with these levels. -/
def booksMsg (action : String) (bids asks : List (String × String)) : OkxWsMessage :=
  let levels (side : List (String × String)) : Value :=
    .array (side.map fun (price, size) => .array [.string price, .string size])
  { arg := some { channel := "books", instId := "BTC-USDT" }
    action := some action
    data := [.object [("bids", levels bids), ("asks", levels asks)]] }

end Okx
end Cryptomeria
