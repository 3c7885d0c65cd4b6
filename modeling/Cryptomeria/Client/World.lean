import Cryptomeria.Db
import Cryptomeria.Traits.LobMetrics

/-!
# What a client writes to

A client reports to the gauges, to its entry in the status map and to the two tables. The functions
that do it (`update_lob_metrics`, `update_depth_metrics`, `update_status_active`,
`update_last_price`) stand in the three `ws.rs` files word for word; here they stand once. The
clock, the outcome of a flush and the jitter of a backoff come from outside, as a `Stamp`.

Lock poisoning, logging and the display of messages are left out.
-/

set_option autoImplicit false

namespace Cryptomeria

/-- The settings of a client that its run reads. -/
structure Config where
  instrument : String
  exchange : String
  cliInstrument : String
  /-- `instrument_to_channel(instrument)`; Bitstamp only. -/
  channelInstrument : String := ""
  /-- `websocket_url(region, exchange)` -/
  wsUrl : String
  maxLevelPct : F64
  maxLevel : Option ℕ := none
  /-- A `Sender` is configured. -/
  sender : Bool := false
  /-- A status handle is attached. -/
  statusHandle : Bool := false
  snapshotDepth : ℕ := 400

/-- The filter a client uses: `max_level` wins over `max_level_pct`. -/
def Config.lobFilter (cfg : Config) : Option LobFilter :=
  match cfg.maxLevel with
  | some maxLevel => some (.maxLevel maxLevel)
  | none => some (.maxLevelPct cfg.maxLevelPct)

def Config.labels (cfg : Config) : List String := [cfg.exchange, cfg.cliInstrument]

def noJitter : Fin 1000 := 0

/-- What the surroundings answer during one step. -/
structure Stamp where
  /-- Milliseconds since the epoch. -/
  now : ℕ
  /-- The sender takes the rows of the step and flushes them. It does not if `.at` refuses the
  timestamp of a row, as the crate does with a negative one, nor if the flush fails. -/
  flushOk : Bool := true
  /-- `gen_range(0..JITTER_MS)` -/
  jitter : Fin 1000 := noJitter

structure ClientStatus where
  active : Bool
  ts : ℕ
  lastPrice : Option F64
  bidSize : F64
  askSize : F64
  detail : String

structure World where
  metrics : LobMetrics := {}
  status : Std.ExtTreeMap String ClientStatus := ∅
  lobLevels : List LobLevelRow := []
  trades : List TradeRow := []
  messagesReceived : ℕ := 0
  /-- History: the books that were handed to `update_depth_metrics`, oldest first. The program
  keeps no such list. -/
  published : List OrderBook := []

namespace World

variable (cfg : Config)

/-! ## Status -/

def statusKey : String := cfg.cliInstrument ++ "@" ++ cfg.exchange

/-- Changes the client's entry, if there is one. -/
def modifyStatus (f : ClientStatus → ClientStatus) (w : World) : World :=
  if cfg.statusHandle then
    match w.status[statusKey cfg]? with
    | some st => { w with status := w.status.insert (statusKey cfg) (f st) }
    | none => w
  else w

def updateStatusActive (now : ℕ) (active : Bool) (detail : String) (w : World) : World :=
  if cfg.statusHandle then
    { w with
      status := w.status.insert (statusKey cfg)
        { active, ts := now, lastPrice := none, bidSize := F64.zero, askSize := F64.zero, detail } }
  else w

def updateLastPrice (now : ℕ) (price : F64) : World → World :=
  modifyStatus cfg fun st => { st with lastPrice := some price, ts := now }

/-! ## Gauges -/

/-- `gauge.set(value)` if there is a value. -/
def setIfSome (g : GaugeVec) (labels : List String) (value : Option F64) : GaugeVec :=
  match value with
  | some v => g.insert labels v
  | none => g

def updateLobMetrics (now : ℕ) (book : OrderBook) (w : World) : World :=
  let lm := w.metrics
  let lm := { lm with
    bestBid := setIfSome lm.bestBid cfg.labels book.bestBid
    bestAsk := setIfSome lm.bestAsk cfg.labels book.bestAsk
    spread := setIfSome lm.spread cfg.labels book.spread
    lastUpdate := lm.lastUpdate.insert cfg.labels (.fin now) }
  modifyStatus cfg
    (fun st => { st with
      bidSize := book.totalBidSize
      askSize := book.totalAskSize
      ts := now })
    { w with metrics := lm }

/-- The gauge of every level, under the labels of the client and the price with two decimals. -/
def depthLabels (price : F64) : List String :=
  [cfg.exchange, cfg.cliInstrument, formatFixed 2 price]

def setDepthLevels (g : GaugeVec) (levels : List (F64 × F64)) : GaugeVec :=
  levels.foldl (fun g (price, size) => g.insert (depthLabels cfg price) size) g

def updateDepthMetrics (book : OrderBook) (w : World) : World :=
  let lm := w.metrics
  let lm := { lm with lobDepthBid := setDepthLevels cfg lm.lobDepthBid book.bids.toList }
  let lm := { lm with lobDepthAsk := setDepthLevels cfg lm.lobDepthAsk book.asks.toList }
  { w with metrics := lm, published := w.published ++ [book] }

/-- Both updates after a book message, in the order of the source. -/
def publish (now : ℕ) (book : OrderBook) (w : World) : World :=
  updateDepthMetrics cfg book (updateLobMetrics cfg now book w)

def incTradesTotal (w : World) : World :=
  { w with metrics := { w.metrics with tradesTotal := w.metrics.tradesTotal.inc cfg.labels } }

/-! ## Rows -/

/-- `persist_lob`; nothing is written for no levels, nor if the sender refuses the rows. -/
def persistLob (stamp : Stamp) (tsMs : ℕ) (action : String) (levels : List (Side × Okx.LobLevel))
    (bestBid bestAsk : Option F64) (w : World) : World :=
  if levels.isEmpty || !stamp.flushOk then w
  else
    { w with
      lobLevels := w.lobLevels
        ++ lobRows cfg.cliInstrument cfg.exchange tsMs action levels bestBid bestAsk }

def persistTrade (stamp : Stamp) (trade : TradeData) (w : World) : World :=
  if stamp.flushOk then { w with trades := w.trades ++ [trade.row] } else w

/-! ## Frames

Which part of the world each function leaves alone. -/

section Frames

variable {cfg} {now : ℕ} {book : OrderBook} {w : World} {stamp : Stamp}

@[simp] theorem modifyStatus_metrics {f : ClientStatus → ClientStatus} :
    (modifyStatus cfg f w).metrics = w.metrics := by
  unfold modifyStatus
  split
  · split <;> rfl
  · rfl

@[simp] theorem modifyStatus_trades {f : ClientStatus → ClientStatus} :
    (modifyStatus cfg f w).trades = w.trades := by
  unfold modifyStatus
  split
  · split <;> rfl
  · rfl

@[simp] theorem modifyStatus_lobLevels {f : ClientStatus → ClientStatus} :
    (modifyStatus cfg f w).lobLevels = w.lobLevels := by
  unfold modifyStatus
  split
  · split <;> rfl
  · rfl

@[simp] theorem modifyStatus_published {f : ClientStatus → ClientStatus} :
    (modifyStatus cfg f w).published = w.published := by
  unfold modifyStatus
  split
  · split <;> rfl
  · rfl

@[simp] theorem updateStatusActive_metrics {active : Bool} {detail : String} :
    (updateStatusActive cfg now active detail w).metrics = w.metrics := by
  unfold updateStatusActive
  split <;> rfl

@[simp] theorem updateStatusActive_published {active : Bool} {detail : String} :
    (updateStatusActive cfg now active detail w).published = w.published := by
  unfold updateStatusActive
  split <;> rfl

@[simp] theorem updateLastPrice_metrics {price : F64} :
    (updateLastPrice cfg now price w).metrics = w.metrics := modifyStatus_metrics

@[simp] theorem updateLastPrice_trades {price : F64} :
    (updateLastPrice cfg now price w).trades = w.trades := modifyStatus_trades

@[simp] theorem updateLastPrice_lobLevels {price : F64} :
    (updateLastPrice cfg now price w).lobLevels = w.lobLevels := modifyStatus_lobLevels

theorem updateLastPrice_tradesTotal {price : F64} :
    (updateLastPrice cfg now price w).metrics.tradesTotal = w.metrics.tradesTotal :=
  congrArg LobMetrics.tradesTotal updateLastPrice_metrics

@[simp] theorem updateLastPrice_published {price : F64} :
    (updateLastPrice cfg now price w).published = w.published := modifyStatus_published

@[simp] theorem publish_trades : (publish cfg now book w).trades = w.trades := by
  simp [publish, updateDepthMetrics, updateLobMetrics]

@[simp] theorem publish_lobLevels : (publish cfg now book w).lobLevels = w.lobLevels := by
  simp [publish, updateDepthMetrics, updateLobMetrics]

@[simp] theorem publish_tradesTotal :
    (publish cfg now book w).metrics.tradesTotal = w.metrics.tradesTotal := by
  simp [publish, updateDepthMetrics, updateLobMetrics]

@[simp] theorem publish_published :
    (publish cfg now book w).published = w.published ++ [book] := by
  simp [publish, updateDepthMetrics, updateLobMetrics]

@[simp] theorem incTradesTotal_trades : (incTradesTotal cfg w).trades = w.trades := rfl

@[simp] theorem incTradesTotal_lobLevels : (incTradesTotal cfg w).lobLevels = w.lobLevels := rfl

@[simp] theorem incTradesTotal_published : (incTradesTotal cfg w).published = w.published := rfl

@[simp] theorem persistLob_metrics {tsMs : ℕ} {action : String}
    {levels : List (Side × Okx.LobLevel)} {bestBid bestAsk : Option F64} :
    (persistLob cfg stamp tsMs action levels bestBid bestAsk w).metrics = w.metrics := by
  unfold persistLob
  split <;> rfl

@[simp] theorem persistLob_trades {tsMs : ℕ} {action : String}
    {levels : List (Side × Okx.LobLevel)} {bestBid bestAsk : Option F64} :
    (persistLob cfg stamp tsMs action levels bestBid bestAsk w).trades = w.trades := by
  unfold persistLob
  split <;> rfl

@[simp] theorem persistLob_published {tsMs : ℕ} {action : String}
    {levels : List (Side × Okx.LobLevel)} {bestBid bestAsk : Option F64} :
    (persistLob cfg stamp tsMs action levels bestBid bestAsk w).published = w.published := by
  unfold persistLob
  split <;> rfl

/-- With a working sender all rows are written; an empty message has none. -/
theorem persistLob_lobLevels {tsMs : ℕ} {action : String} {levels : List (Side × Okx.LobLevel)}
    {bestBid bestAsk : Option F64} (hflush : stamp.flushOk = true) :
    (persistLob cfg stamp tsMs action levels bestBid bestAsk w).lobLevels = w.lobLevels
      ++ lobRows cfg.cliInstrument cfg.exchange tsMs action levels bestBid bestAsk := by
  cases levels with
  | nil => simp [persistLob, lobRows]
  | cons level levels => simp [persistLob, hflush]

@[simp] theorem persistTrade_metrics {trade : TradeData} :
    (persistTrade stamp trade w).metrics = w.metrics := by
  unfold persistTrade
  split <;> rfl

@[simp] theorem persistTrade_lobLevels {trade : TradeData} :
    (persistTrade stamp trade w).lobLevels = w.lobLevels := by
  unfold persistTrade
  split <;> rfl

@[simp] theorem persistTrade_published {trade : TradeData} :
    (persistTrade stamp trade w).published = w.published := by
  unfold persistTrade
  split <;> rfl

/-- The gauges and the history of publications are as before. -/
structure SameGauges (w w' : World) : Prop where
  metrics : w'.metrics = w.metrics
  published : w'.published = w.published

theorem SameGauges.refl (w : World) : SameGauges w w := ⟨rfl, rfl⟩

theorem SameGauges.trans {w w' w'' : World} (h : SameGauges w w') (h' : SameGauges w' w'') :
    SameGauges w w'' := ⟨h'.metrics.trans h.metrics, h'.published.trans h.published⟩

theorem sameGauges_updateLastPrice (now : ℕ) (price : F64) (w : World) :
    SameGauges w (updateLastPrice cfg now price w) :=
  ⟨updateLastPrice_metrics, updateLastPrice_published⟩

theorem sameGauges_persistLob (stamp : Stamp) (tsMs : ℕ) (action : String)
    (levels : List (Side × Okx.LobLevel)) (bestBid bestAsk : Option F64) (w : World) :
    SameGauges w (persistLob cfg stamp tsMs action levels bestBid bestAsk w) :=
  ⟨persistLob_metrics, persistLob_published⟩

theorem sameGauges_persistTrade (stamp : Stamp) (trade : TradeData) (w : World) :
    SameGauges w (persistTrade stamp trade w) := ⟨persistTrade_metrics, persistTrade_published⟩

end Frames

end World

end Cryptomeria
