import Cryptomeria.Client.Conn
import Cryptomeria.Kraken.Lob

/-!
# The Kraken client

The message branch of the read loop in `kraken/ws.rs`, and `persist_message`. Every message of the
trade channel counts as one trade; what is written is its first data element.
-/

set_option autoImplicit false

namespace Cryptomeria
namespace Kraken

def buildSubscribeMsg (channel instrument : String) : Value :=
  .object [("method", .string "subscribe"),
    ("params", .object [("channel", .string channel), ("symbol", .array [.string instrument])])]

def firstTrade (msg : KrakenWsMessage) : Option TradeData := msg.data.head?.bind TradeData.ofValue

def onMessage (filter : Option LobFilter) (msg : KrakenWsMessage) (orderBook : OrderBook) :
    OrderBook :=
  match msg.messageType with
  | .l2Snapshot | .l2Update | .l2 => processMsg msg filter orderBook
  | .trade | .event | .status | .heartbeat | .unknown => orderBook

/-- A level as `db` takes it, with eight decimals. -/
def toOkxLevel (kl : LobLevel) : Okx.LobLevel :=
  { price := formatFixed 8 kl.price, size := formatFixed 8 kl.qty, count := "0", orders := "0" }

def firstPrice (levels : List LobLevel) : Option F64 := levels.head?.map fun l => l.price

def persistMessage (rfc3339 : String → Option ℤ) (cfg : Config) (stamp : Stamp)
    (msg : KrakenWsMessage) (w : World) : World :=
  let tsMs := (msg.timestampMs rfc3339).getD 0
  let okxLevels := msg.lobLevels.map fun (side, kl) => (side, toOkxLevel kl)
  match msg.messageType with
  | .l2Snapshot =>
    let snapshot := msg.lobSnapshot
    let bestBid := snapshot.bind fun d => firstPrice d.bids
    let bestAsk := snapshot.bind fun d => firstPrice d.asks
    w.persistLob cfg stamp tsMs "snapshot" okxLevels bestBid bestAsk
  | .l2Update =>
    let update := msg.lobUpdate
    let bestBid := update.bind fun d => firstPrice d.bids
    let bestAsk := update.bind fun d => firstPrice d.asks
    w.persistLob cfg stamp tsMs "update" okxLevels bestBid bestAsk
  | .trade =>
    match firstTrade msg with
    | some trade =>
      w.persistTrade stamp
        { instId := cfg.cliInstrument, exchange := cfg.exchange, tradeId := trade.tradeId
          px := trade.price, sz := trade.qty, side := trade.side, tsMs }
    | none => w
  | _ => w

def reportMessage (rfc3339 : String → Option ℤ) (cfg : Config) (stamp : Stamp)
    (msg : KrakenWsMessage) (orderBook : OrderBook) (w : World) : World :=
  let w := match msg.messageType with
    | .l2Snapshot | .l2Update | .l2 => w.publish cfg stamp.now orderBook
    | .trade =>
      let w := w.incTradesTotal cfg
      match firstTrade msg with
      | some trade => w.updateLastPrice cfg stamp.now trade.price
      | none => w
    | .event | .status | .heartbeat | .unknown => w
  if cfg.sender then persistMessage rfc3339 cfg stamp msg w else w

def client (rfc3339 : String → Option ℤ) : ClientSpec where
  Msg := KrakenWsMessage
  Answer := Empty
  Session := OrderBook
  newSession _ := OrderBook.new
  book := id
  awaiting _ := false
  onMessage _ filter := onMessage filter
  onAnswer _ _ _ := id
  reportMessage cfg stamp msg _ orderBook := reportMessage rfc3339 cfg stamp msg orderBook
  reportAnswer _ _ _ _ _ := id
  subscribeMsgs cfg :=
    (buildSubscribeMsg "book" cfg.instrument, buildSubscribeMsg "trade" cfg.instrument)
  connectedDetail cfg := "connected to " ++ cfg.wsUrl
  subscribedDetail cfg := "subscribed to book " ++ cfg.instrument
  connectErrorDetail attempt := some ("disconnected, attempt " ++ toString attempt)

/-- Persistence leaves the gauges alone. -/
theorem sameGauges_persistMessage (rfc3339 : String → Option ℤ) (cfg : Config) (stamp : Stamp)
    (msg : KrakenWsMessage) (w : World) :
    w.SameGauges (persistMessage rfc3339 cfg stamp msg w) := by
  unfold persistMessage
  cases msg.messageType with
  | l2Snapshot | l2Update => exact World.sameGauges_persistLob _ _ _ _ _ _ _
  | trade =>
    cases firstTrade msg with
    | none => exact World.SameGauges.refl w
    | some trade => exact World.sameGauges_persistTrade _ _ _
  | l2 | event | status | heartbeat | unknown => exact World.SameGauges.refl w

end Kraken
end Cryptomeria
