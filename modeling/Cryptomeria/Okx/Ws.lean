import Cryptomeria.Client.Conn
import Cryptomeria.Okx.Lob

/-!
# The OKX client

The message branch of the read loop in `okx/ws.rs`, and `persist_message`. A session is the order
book alone.
-/

set_option autoImplicit false

namespace Cryptomeria
namespace Okx

def buildSubscribeMsg (channel instrument : String) : Value :=
  .object [("op", .string "subscribe"),
    ("args", .array [.object [("channel", .string channel), ("instId", .string instrument)]])]

/-- The first data element as a trade. -/
def firstTrade (msg : OkxWsMessage) : Option TradeData := msg.data.head?.bind TradeData.ofValue

def onMessage (filter : Option LobFilter) (msg : OkxWsMessage) (orderBook : OrderBook) :
    OrderBook :=
  match msg.messageType with
  | .l2Snapshot | .l2Update | .l2 => processMsg msg filter orderBook
  | .trade | .event | .unknown => orderBook

/-- The price of the first level of a list. -/
def firstPrice (levels : List LobLevel) : Option F64 := levels.head?.bind fun l => parseF64 l.price

def persistMessage (cfg : Config) (stamp : Stamp) (msg : OkxWsMessage) (w : World) : World :=
  let tsMs := msg.timestampMs.getD 0
  match msg.messageType with
  | .l2Snapshot =>
    let snapshot := msg.lobSnapshot
    let bestBid := snapshot.bind fun d => firstPrice d.bids
    let bestAsk := snapshot.bind fun d => firstPrice d.asks
    w.persistLob cfg stamp tsMs "snapshot" msg.lobLevels bestBid bestAsk
  | .l2Update =>
    let update := msg.lobUpdate
    let bestBid := update.bind fun d => firstPrice d.bids
    let bestAsk := update.bind fun d => firstPrice d.asks
    w.persistLob cfg stamp tsMs "update" msg.lobLevels bestBid bestAsk
  | .trade =>
    match firstTrade msg with
    | some trade =>
      let px := (parseF64 trade.px).getD F64.zero
      let sz := (parseF64 trade.sz).getD F64.zero
      let w := w.persistTrade stamp
        { instId := cfg.cliInstrument, exchange := cfg.exchange, tradeId := trade.tradeId
          px, sz, side := trade.side, tsMs }
      if stamp.flushOk then w.updateLastPrice cfg stamp.now px else w
    | none => w
  | _ => w

def reportMessage (cfg : Config) (stamp : Stamp) (msg : OkxWsMessage) (orderBook : OrderBook)
    (w : World) : World :=
  let w := match msg.messageType with
    | .l2Snapshot | .l2Update | .l2 => w.publish cfg stamp.now orderBook
    | .trade | .event | .unknown =>
      match firstTrade msg with
      | some trade =>
        let w := w.incTradesTotal cfg
        match parseF64 trade.px with
        | some px => w.updateLastPrice cfg stamp.now px
        | none => w
      | none => w
  if cfg.sender then persistMessage cfg stamp msg w else w

def client : ClientSpec where
  Msg := OkxWsMessage
  Answer := Empty
  Session := OrderBook
  newSession _ := OrderBook.new
  book := id
  awaiting _ := false
  onMessage _ filter := onMessage filter
  onAnswer _ _ _ := id
  reportMessage cfg stamp msg _ orderBook := reportMessage cfg stamp msg orderBook
  reportAnswer _ _ _ _ _ := id
  subscribeMsgs cfg :=
    (buildSubscribeMsg "books" cfg.instrument, buildSubscribeMsg "trades" cfg.instrument)
  connectedDetail _ := "connected"
  subscribedDetail cfg := "subscribed to books " ++ cfg.instrument
  connectErrorDetail _ := none

/-- Persistence leaves the gauges alone. -/
theorem sameGauges_persistMessage (cfg : Config) (stamp : Stamp) (msg : OkxWsMessage) (w : World) :
    w.SameGauges (persistMessage cfg stamp msg w) := by
  unfold persistMessage
  cases msg.messageType with
  | l2Snapshot | l2Update => exact World.sameGauges_persistLob _ _ _ _ _ _ _
  | trade =>
    cases firstTrade msg with
    | none => exact World.SameGauges.refl w
    | some trade =>
      dsimp only
      split
      · exact (World.sameGauges_persistTrade _ _ _).trans (World.sameGauges_updateLastPrice _ _ _)
      · exact World.sameGauges_persistTrade _ _ _
  | l2 | event | unknown => exact World.SameGauges.refl w

end Okx
end Cryptomeria
