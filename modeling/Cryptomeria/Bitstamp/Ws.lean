import Cryptomeria.Bitstamp.Lob
import Cryptomeria.Client.Conn

/-!
# The Bitstamp client

The read loop of `bitstamp/ws.rs` has two phases. Before the snapshot, diffs are buffered; the first
`bts:subscription_succeeded` makes the handler request a snapshot, and with the answer the snapshot
is applied and the buffer is replayed without what is not newer. After that every book message goes
to the book directly.
-/

set_option autoImplicit false

namespace Cryptomeria
namespace Bitstamp

def buildSubscribeMsg (channel : String) : Value :=
  .object [("event", .string "bts:subscribe"), ("data", .object [("channel", .string channel)])]

def ordersChannel (cfg : Config) : String := "diff_order_book_" ++ cfg.channelInstrument

def tradesChannel (cfg : Config) : String := "live_trades_" ++ cfg.channelInstrument

/-- How the REST request ends: no response, a body that cannot be read, or a snapshot. -/
inductive RestAnswer where
  | failed
  | badJson
  | ok (snapshot : OrderBookData)

/-- An application to the order book: the snapshot with its microtimestamp, or a message. -/
inductive Applied where
  | snapshot (microtimestamp : ℕ)
  | message (msg : BitstampWsMessage)

structure Session where
  orderBook : OrderBook
  buffer : List BitstampWsMessage := []
  subscriptionConfirmed : Bool := false
  snapshotAttempted : Bool := false
  snapshotApplied : Bool := false
  /-- History: what was applied to the order book, oldest first. -/
  applied : List Applied := []

namespace Session

def new (cfg : Config) : Session := { orderBook := OrderBook.withSnapshotDepth cfg.snapshotDepth }

/-- The snapshot is requested and not yet answered. -/
def awaiting (self : Session) : Bool := self.snapshotAttempted && !self.snapshotApplied

def apply (filter : Option LobFilter) (msg : BitstampWsMessage) (self : Session) : Session :=
  { self with
    orderBook := OrderBook.processMsg msg filter self.orderBook
    applied := self.applied ++ [.message msg] }

def onMessage (filter : Option LobFilter) (msg : BitstampWsMessage) (self : Session) : Session :=
  if !self.snapshotApplied then
    let self := match msg.messageType with
      | .l2Update => { self with buffer := self.buffer ++ [msg] }
      | .event =>
        if msg.event = some "bts:subscription_succeeded" then
          { self with subscriptionConfirmed := true }
        else self
      | .trade | .unknown | .l2Snapshot => self
    -- one attempt per connection
    if self.subscriptionConfirmed && !self.snapshotApplied && !self.snapshotAttempted then
      { self with snapshotAttempted := true }
    else self
  else
    match msg.messageType with
    | .l2Snapshot | .l2Update => self.apply filter msg
    | .trade | .event | .unknown => self

def snapshotMsg (cfg : Config) (snapshot : OrderBookData) : BitstampWsMessage :=
  { event := some "snapshot", channel := some (ordersChannel cfg), data := some snapshot.toValue }

def snapshotMicrotimestamp (snapshot : OrderBookData) : ℕ :=
  (parseU64 snapshot.microtimestamp).getD 0

/-- A buffered message is replayed when it is newer than the snapshot or has no
microtimestamp. -/
def keeps (microtimestamp : ℕ) (msg : BitstampWsMessage) : Bool :=
  match msg.microtimestampUs with
  | some us => decide (us > microtimestamp)
  | none => true

def applySnapshot (cfg : Config) (filter : Option LobFilter) (snapshot : OrderBookData)
    (self : Session) : Session :=
  { self with
    orderBook := OrderBook.processMsg (snapshotMsg cfg snapshot) filter self.orderBook
    applied := self.applied ++ [.snapshot (snapshotMicrotimestamp snapshot)] }

def onAnswer (cfg : Config) (filter : Option LobFilter) (a : RestAnswer) (self : Session) :
    Session :=
  match a with
  | .ok snapshot =>
    let self := self.applySnapshot cfg filter snapshot
    let keep := self.buffer.filter (keeps (snapshotMicrotimestamp snapshot))
    let self := keep.foldl (fun self msg => self.apply filter msg) { self with buffer := [] }
    { self with snapshotApplied := true }
  | .badJson | .failed =>
    -- goes on without an initial snapshot
    { self with snapshotApplied := true }

end Session

def tradeOf (msg : BitstampWsMessage) : Option TradeData := msg.data.bind TradeData.ofValue

def persistMessage (cfg : Config) (stamp : Stamp) (msg : BitstampWsMessage) (w : World) : World :=
  let tsMs := msg.timestampMs.getD 0
  match msg.messageType with
  | .l2Snapshot | .l2Update =>
    let ob := msg.data.bind OrderBookData.ofValue
    let bestBid := ob.bind fun ob => ob.bids.head?.bind fun b => parseF64 b.1
    let bestAsk := ob.bind fun ob => ob.asks.head?.bind fun a => parseF64 a.1
    let okxLevels := msg.lobLevels.map fun (side, bl) =>
      (side, ({ price := bl.price, size := bl.size, count := "0", orders := "0" } : Okx.LobLevel))
    w.persistLob cfg stamp tsMs "update" okxLevels bestBid bestAsk
  | .trade =>
    match tradeOf msg with
    | some trade =>
      let px := (parseF64 trade.price).getD F64.zero
      let sz := (parseF64 trade.amount).getD F64.zero
      let side := if trade.tradeType = 0 then "buy" else "sell"
      let w := w.persistTrade stamp
        { instId := cfg.cliInstrument, exchange := cfg.exchange, tradeId := toString trade.id
          px, sz, side, tsMs }
      if stamp.flushOk then w.updateLastPrice cfg stamp.now px else w
    | none => w
  | _ => w

def persistIfSender (cfg : Config) (stamp : Stamp) (msg : BitstampWsMessage) (w : World) : World :=
  if cfg.sender then persistMessage cfg stamp msg w else w

/-- Phase 1 persists trades only; phase 2 persists everything. -/
def reportMessage (cfg : Config) (stamp : Stamp) (msg : BitstampWsMessage)
    (before after : Session) (w : World) : World :=
  if !before.snapshotApplied then
    match msg.messageType with
    | .trade =>
      let w := persistIfSender cfg stamp msg (w.incTradesTotal cfg)
      match (tradeOf msg).bind fun trade => parseF64 trade.price with
      | some px => w.updateLastPrice cfg stamp.now px
      | none => w
    | .l2Update | .event | .unknown | .l2Snapshot => w
  else
    let w := match msg.messageType with
      | .l2Snapshot | .l2Update => w.publish cfg stamp.now after.orderBook.toOrderBook
      | .trade =>
        let w := w.incTradesTotal cfg
        match tradeOf msg with
        | some trade => w.updateLastPrice cfg stamp.now ((parseF64 trade.price).getD F64.zero)
        | none => w
      | .event | .unknown => w
    persistIfSender cfg stamp msg w

def reportAnswer (cfg : Config) (stamp : Stamp) (a : RestAnswer) (after : Session) (w : World) :
    World :=
  match a with
  | .ok _ => w.publish cfg stamp.now after.orderBook.toOrderBook
  | .badJson | .failed => w

abbrev client : ClientSpec where
  Msg := BitstampWsMessage
  Answer := RestAnswer
  Session := Session
  newSession := Session.new
  book self := self.orderBook.toOrderBook
  awaiting := Session.awaiting
  onMessage _ := Session.onMessage
  onAnswer := Session.onAnswer
  reportMessage := reportMessage
  reportAnswer cfg stamp a _ := reportAnswer cfg stamp a
  subscribeMsgs cfg :=
    (buildSubscribeMsg (ordersChannel cfg), buildSubscribeMsg (tradesChannel cfg))
  connectedDetail cfg := "connected to " ++ cfg.wsUrl
  subscribedDetail cfg := "subscribed to " ++ ordersChannel cfg
  connectErrorDetail attempt := some ("connect error, attempt " ++ toString attempt)

/-- Persistence leaves the gauges alone. -/
theorem sameGauges_persistMessage (cfg : Config) (stamp : Stamp) (msg : BitstampWsMessage)
    (w : World) : w.SameGauges (persistMessage cfg stamp msg w) := by
  unfold persistMessage
  cases msg.messageType with
  | l2Snapshot | l2Update => exact World.sameGauges_persistLob _ _ _ _ _ _ _
  | trade =>
    cases tradeOf msg with
    | none => exact World.SameGauges.refl w
    | some trade =>
      dsimp only
      split
      · exact (World.sameGauges_persistTrade _ _ _).trans (World.sameGauges_updateLastPrice _ _ _)
      · exact World.sameGauges_persistTrade _ _ _
  | event | unknown => exact World.SameGauges.refl w

theorem sameGauges_persistIfSender (cfg : Config) (stamp : Stamp) (msg : BitstampWsMessage)
    (w : World) : w.SameGauges (persistIfSender cfg stamp msg w) := by
  unfold persistIfSender
  split
  · exact sameGauges_persistMessage cfg stamp msg w
  · exact World.SameGauges.refl w

end Bitstamp
end Cryptomeria
