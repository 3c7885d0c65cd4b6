import Cryptomeria.Client.Venue

/-!
# What the clients share

All clients of a process write to one `LobMetrics` and one status map. A handler writes them piece
by piece, and in between other clients write. So here what a client writes is a list of single
updates: `Client.updates` lists those of a step, and `Client.shared_step` says that they are what
the step does.
-/

set_option autoImplicit false

namespace Cryptomeria

structure Shared where
  metrics : LobMetrics := {}
  status : Std.ExtTreeMap String ClientStatus := ∅

def World.shared (w : World) : Shared := { metrics := w.metrics, status := w.status }

/-! ## Single updates -/

/-- The gauges with two labels. -/
inductive Gauge where
  | bestBid
  | bestAsk
  | spread
  | lastUpdate
deriving DecidableEq

namespace LobMetrics

def gauge (lm : LobMetrics) : Gauge → GaugeVec
  | .bestBid => lm.bestBid
  | .bestAsk => lm.bestAsk
  | .spread => lm.spread
  | .lastUpdate => lm.lastUpdate

def setGauge (lm : LobMetrics) (labels : List String) (value : F64) : Gauge → LobMetrics
  | .bestBid => { lm with bestBid := lm.bestBid.insert labels value }
  | .bestAsk => { lm with bestAsk := lm.bestAsk.insert labels value }
  | .spread => { lm with spread := lm.spread.insert labels value }
  | .lastUpdate => { lm with lastUpdate := lm.lastUpdate.insert labels value }

def setDepth (lm : LobMetrics) (labels : List String) (value : F64) : Side → LobMetrics
  | .bid => { lm with lobDepthBid := lm.lobDepthBid.insert labels value }
  | .ask => { lm with lobDepthAsk := lm.lobDepthAsk.insert labels value }

variable (lm : LobMetrics) (labels : List String) (value : F64)

theorem gauge_setGauge (g g' : Gauge) :
    (lm.setGauge labels value g).gauge g'
      = if g = g' then (lm.gauge g').insert labels value else lm.gauge g' := by
  cases g <;> cases g' <;> rfl

@[simp] theorem gauge_setDepth (s : Side) (g : Gauge) :
    (lm.setDepth labels value s).gauge g = lm.gauge g := by
  cases s <;> cases g <;> rfl

theorem depth_setDepth (s s' : Side) :
    (lm.setDepth labels value s).depth s'
      = if s = s' then (lm.depth s').insert labels value else lm.depth s' := by
  cases s <;> cases s' <;> rfl

@[simp] theorem depth_setGauge (g : Gauge) (s : Side) :
    (lm.setGauge labels value g).depth s = lm.depth s := by
  cases g <;> cases s <;> rfl

@[simp] theorem tradesTotal_setGauge (g : Gauge) :
    (lm.setGauge labels value g).tradesTotal = lm.tradesTotal := by
  cases g <;> rfl

@[simp] theorem tradesTotal_setDepth (s : Side) :
    (lm.setDepth labels value s).tradesTotal = lm.tradesTotal := by
  cases s <;> rfl

end LobMetrics

/-- One write to what is shared. -/
inductive Update where
  /-- a new entry in the status map -/
  | status (st : ClientStatus)
  | sizes (now : ℕ) (bidSize askSize : F64)
  | lastPrice (now : ℕ) (price : F64)
  | gauge (g : Gauge) (value : F64)
  | depth (s : Side) (price size : F64)
  | trade

namespace Shared

variable (cfg : Config)

/-- Changes the client's entry, if there is one. -/
def modifyStatus (f : ClientStatus → ClientStatus) (sh : Shared) : Shared :=
  match sh.status[World.statusKey cfg]? with
  | some st => { sh with status := sh.status.insert (World.statusKey cfg) (f st) }
  | none => sh

def apply (sh : Shared) : Update → Shared
  | .status st => { sh with status := sh.status.insert (World.statusKey cfg) st }
  | .sizes now bidSize askSize =>
    sh.modifyStatus cfg fun st => { st with bidSize, askSize, ts := now }
  | .lastPrice now price =>
    sh.modifyStatus cfg fun st => { st with lastPrice := some price, ts := now }
  | .gauge g value => { sh with metrics := sh.metrics.setGauge cfg.labels value g }
  | .depth s price size =>
    { sh with metrics := sh.metrics.setDepth (World.depthLabels cfg price) size s }
  | .trade =>
    { sh with metrics := { sh.metrics with tradesTotal := sh.metrics.tradesTotal.inc cfg.labels } }

end Shared

/-! ## The functions of a client as lists of updates -/

/-- What the function writes, whatever stood there before. -/
def Emits (cfg : Config) (f : World → World) (us : List Update) : Prop :=
  ∀ w, (f w).shared = us.foldl (Shared.apply cfg) w.shared

section Emits

variable {cfg : Config} {f g : World → World} {us vs : List Update}

theorem Emits.nil (h : ∀ w, (f w).shared = w.shared) : Emits cfg f [] := h

theorem Emits.comp (hf : Emits cfg f us) (hg : Emits cfg g vs) :
    Emits cfg (fun w => g (f w)) (us ++ vs) := by
  intro w
  rw [hg, hf, List.foldl_append]

theorem Emits.ite {p : Prop} [Decidable p] (hf : Emits cfg f us) (hg : Emits cfg g vs) :
    Emits cfg (fun w => if p then f w else g w) (if p then us else vs) := by
  intro w
  split
  · exact hf w
  · exact hg w

variable (hstatus : cfg.statusHandle = true)
include hstatus

theorem shared_modifyStatus (f : ClientStatus → ClientStatus) (w : World) :
    (w.modifyStatus cfg f).shared = w.shared.modifyStatus cfg f := by
  unfold World.modifyStatus Shared.modifyStatus
  rw [if_pos hstatus]
  show _ = match w.status[World.statusKey cfg]? with
    | some st => _
    | none => _
  cases w.status[World.statusKey cfg]? <;> rfl

/-- `update_status_active` -/
def activeUpdate (now : ℕ) (active : Bool) (detail : String) : Update :=
  .status { active, ts := now, lastPrice := none, bidSize := F64.zero, askSize := F64.zero, detail }

def lobUpdates (now : ℕ) (book : OrderBook) : List Update :=
  (book.bestBid.map (Update.gauge .bestBid)).toList
    ++ (book.bestAsk.map (Update.gauge .bestAsk)).toList
    ++ (book.spread.map (Update.gauge .spread)).toList
    ++ [.gauge .lastUpdate (.fin now), .sizes now book.totalBidSize book.totalAskSize]

def depthUpdates (book : OrderBook) : List Update :=
  book.bids.toList.map (fun l => .depth .bid l.1 l.2)
    ++ book.asks.toList.map fun l => .depth .ask l.1 l.2

theorem emits_updateStatusActive (now : ℕ) (active : Bool) (detail : String) :
    Emits cfg (World.updateStatusActive cfg now active detail)
      [activeUpdate now active detail] := by
  intro w
  rw [World.updateStatusActive, if_pos hstatus]
  rfl

theorem emits_updateLastPrice (now : ℕ) (price : F64) :
    Emits cfg (World.updateLastPrice cfg now price) [.lastPrice now price] :=
  fun w => shared_modifyStatus hstatus _ w

theorem emits_updateLobMetrics (now : ℕ) (book : OrderBook) :
    Emits cfg (World.updateLobMetrics cfg now book) (lobUpdates now book) := by
  intro w
  rw [World.updateLobMetrics, shared_modifyStatus hstatus, lobUpdates]
  cases book.bestBid <;> cases book.bestAsk <;> cases book.spread <;> rfl

omit hstatus in
theorem foldl_depth (s : Side) (levels : List (F64 × F64)) (sh : Shared) :
    (levels.map fun l => Update.depth s l.1 l.2).foldl (Shared.apply cfg) sh
      = { sh with
          metrics := match s with
            | .bid => { sh.metrics with
                lobDepthBid := World.setDepthLevels cfg sh.metrics.lobDepthBid levels }
            | .ask => { sh.metrics with
                lobDepthAsk := World.setDepthLevels cfg sh.metrics.lobDepthAsk levels } } := by
  induction levels generalizing sh with
  | nil => cases s <;> rfl
  | cons l levels ih =>
    rw [List.map_cons, List.foldl_cons, ih]
    cases s <;> rfl

omit hstatus in
theorem emits_updateDepthMetrics (book : OrderBook) :
    Emits cfg (World.updateDepthMetrics cfg book) (depthUpdates book) := by
  intro w
  rw [depthUpdates, List.foldl_append, foldl_depth, foldl_depth]
  rfl

theorem emits_publish (now : ℕ) (book : OrderBook) :
    Emits cfg (World.publish cfg now book) (lobUpdates now book ++ depthUpdates book) :=
  (emits_updateLobMetrics hstatus now book).comp (emits_updateDepthMetrics book)

omit hstatus in
theorem emits_incTradesTotal : Emits cfg (World.incTradesTotal cfg) [.trade] := fun _ => rfl

omit hstatus in
theorem emits_persistLob (stamp : Stamp) (tsMs : ℕ) (action : String)
    (levels : List (Side × Okx.LobLevel)) (bestBid bestAsk : Option F64) :
    Emits cfg (World.persistLob cfg stamp tsMs action levels bestBid bestAsk) [] := by
  intro w
  unfold World.persistLob
  split <;> rfl

omit hstatus in
theorem emits_persistTrade (stamp : Stamp) (trade : TradeData) :
    Emits cfg (World.persistTrade stamp trade) [] := by
  intro w
  unfold World.persistTrade
  split <;> rfl

end Emits

/-! ## The handlers -/

/-- What the handlers of a client write. -/
structure ClientSpec.Updates (c : ClientSpec) where
  message : Config → Stamp → c.Msg → c.Session → c.Session → List Update
  answer : Config → Stamp → c.Answer → c.Session → c.Session → List Update
  message_emits : ∀ cfg stamp msg before after, cfg.statusHandle = true →
    Emits cfg (c.reportMessage cfg stamp msg before after) (message cfg stamp msg before after)
  answer_emits : ∀ cfg stamp a before after, cfg.statusHandle = true →
    Emits cfg (c.reportAnswer cfg stamp a before after) (answer cfg stamp a before after)

def publishUpdates (now : ℕ) (book : OrderBook) : List Update :=
  lobUpdates now book ++ depthUpdates book

namespace Okx

def persistUpdates (stamp : Stamp) (msg : OkxWsMessage) : List Update :=
  match msg.messageType with
  | .trade =>
    match firstTrade msg with
    | some trade =>
      if stamp.flushOk then [.lastPrice stamp.now ((parseF64 trade.px).getD F64.zero)] else []
    | none => []
  | _ => []

def messageUpdates (cfg : Config) (stamp : Stamp) (msg : OkxWsMessage) (book : OrderBook) :
    List Update :=
  (match msg.messageType with
    | .l2Snapshot | .l2Update | .l2 => publishUpdates stamp.now book
    | .trade | .event | .unknown =>
      match firstTrade msg with
      | some trade =>
        [.trade] ++ ((parseF64 trade.px).map (Update.lastPrice stamp.now)).toList
      | none => [])
    ++ if cfg.sender then persistUpdates stamp msg else []

variable {cfg : Config} (hstatus : cfg.statusHandle = true)
include hstatus

theorem emits_persistMessage (stamp : Stamp) (msg : OkxWsMessage) :
    Emits cfg (persistMessage cfg stamp msg) (persistUpdates stamp msg) := by
  unfold persistMessage persistUpdates
  cases msg.messageType with
  | l2Snapshot | l2Update => exact emits_persistLob _ _ _ _ _ _
  | l2 | event | unknown => exact Emits.nil fun _ => rfl
  | trade =>
    cases firstTrade msg with
    | none => exact Emits.nil fun _ => rfl
    | some trade =>
      dsimp only
      split
      · exact (emits_persistTrade _ _).comp (emits_updateLastPrice hstatus _ _)
      · exact emits_persistTrade _ _

theorem emits_reportMessage (stamp : Stamp) (msg : OkxWsMessage) (book : OrderBook) :
    Emits cfg (reportMessage cfg stamp msg book) (messageUpdates cfg stamp msg book) := by
  unfold reportMessage messageUpdates
  refine Emits.comp ?_ (Emits.ite (emits_persistMessage hstatus stamp msg) (Emits.nil fun _ => rfl))
  cases msg.messageType with
  | l2Snapshot | l2Update | l2 => exact emits_publish hstatus _ _
  | trade | event | unknown =>
    cases firstTrade msg with
    | none => exact Emits.nil fun _ => rfl
    | some trade =>
      dsimp only
      cases parseF64 trade.px with
      | none => exact emits_incTradesTotal
      | some px => exact emits_incTradesTotal.comp (emits_updateLastPrice hstatus _ _)

omit hstatus in
def updates : client.Updates where
  message cfg stamp msg _ book := messageUpdates cfg stamp msg book
  answer _ _ _ _ _ := []
  message_emits _ stamp msg _ book hstatus := emits_reportMessage hstatus stamp msg book
  answer_emits _ _ a := a.elim

end Okx

namespace Kraken

variable (rfc3339 : String → Option ℤ)

def messageUpdates (stamp : Stamp) (msg : KrakenWsMessage) (book : OrderBook) : List Update :=
  match msg.messageType with
  | .l2Snapshot | .l2Update | .l2 => publishUpdates stamp.now book
  | .trade =>
    [.trade] ++ ((firstTrade msg).map fun trade => .lastPrice stamp.now trade.price).toList
  | .event | .status | .heartbeat | .unknown => []

/-- Kraken does not report a price when it persists. -/
theorem emits_persistMessage (cfg : Config) (stamp : Stamp) (msg : KrakenWsMessage) :
    Emits cfg (persistMessage rfc3339 cfg stamp msg) [] := by
  unfold persistMessage
  cases msg.messageType with
  | l2Snapshot | l2Update => exact emits_persistLob _ _ _ _ _ _
  | trade =>
    cases firstTrade msg with
    | none => exact Emits.nil fun _ => rfl
    | some trade => exact emits_persistTrade _ _
  | l2 | event | status | heartbeat | unknown => exact Emits.nil fun _ => rfl

theorem emits_reportMessage {cfg : Config} (hstatus : cfg.statusHandle = true) (stamp : Stamp)
    (msg : KrakenWsMessage) (book : OrderBook) :
    Emits cfg (reportMessage rfc3339 cfg stamp msg book) (messageUpdates stamp msg book) := by
  have hpersist : Emits cfg
      (fun w => if cfg.sender then persistMessage rfc3339 cfg stamp msg w else w) [] := by
    split
    · exact emits_persistMessage rfc3339 cfg stamp msg
    · exact Emits.nil fun _ => rfl
  rw [← List.append_nil (messageUpdates stamp msg book)]
  unfold reportMessage messageUpdates
  refine Emits.comp ?_ hpersist
  cases msg.messageType with
  | l2Snapshot | l2Update | l2 => exact emits_publish hstatus _ _
  | event | status | heartbeat | unknown => exact Emits.nil fun _ => rfl
  | trade =>
    cases firstTrade msg with
    | none => exact emits_incTradesTotal
    | some trade => exact emits_incTradesTotal.comp (emits_updateLastPrice hstatus _ _)

def updates : (client rfc3339).Updates where
  message _ stamp msg _ book := messageUpdates stamp msg book
  answer _ _ _ _ _ := []
  message_emits _ stamp msg _ book hstatus := emits_reportMessage rfc3339 hstatus stamp msg book
  answer_emits _ _ a := a.elim

end Kraken

namespace Bitstamp

def persistUpdates (cfg : Config) (stamp : Stamp) (msg : BitstampWsMessage) : List Update :=
  match cfg.sender, msg.messageType, tradeOf msg with
  | true, .trade, some trade =>
    if stamp.flushOk then [.lastPrice stamp.now ((parseF64 trade.price).getD F64.zero)] else []
  | _, _, _ => []

def messageUpdates (cfg : Config) (stamp : Stamp) (msg : BitstampWsMessage)
    (before after : Session) : List Update :=
  if !before.snapshotApplied then
    match msg.messageType with
    | .trade =>
      [.trade] ++ persistUpdates cfg stamp msg
        ++ (((tradeOf msg).bind fun trade => parseF64 trade.price).map
          (Update.lastPrice stamp.now)).toList
    | .l2Update | .event | .unknown | .l2Snapshot => []
  else
    (match msg.messageType with
      | .l2Snapshot | .l2Update => publishUpdates stamp.now after.orderBook.toOrderBook
      | .trade =>
        [.trade] ++ ((tradeOf msg).map fun trade =>
          .lastPrice stamp.now ((parseF64 trade.price).getD F64.zero)).toList
      | .event | .unknown => [])
      ++ persistUpdates cfg stamp msg

def answerUpdates (stamp : Stamp) (a : RestAnswer) (after : Session) : List Update :=
  match a with
  | .ok _ => publishUpdates stamp.now after.orderBook.toOrderBook
  | .badJson | .failed => []

variable {cfg : Config} (hstatus : cfg.statusHandle = true)
include hstatus

theorem emits_persistIfSender (stamp : Stamp) (msg : BitstampWsMessage) :
    Emits cfg (persistIfSender cfg stamp msg) (persistUpdates cfg stamp msg) := by
  unfold persistIfSender persistMessage persistUpdates
  cases cfg.sender with
  | false => exact Emits.nil fun _ => rfl
  | true =>
    cases msg.messageType with
    | l2Snapshot | l2Update => exact emits_persistLob _ _ _ _ _ _
    | event | unknown => exact Emits.nil fun _ => rfl
    | trade =>
      cases tradeOf msg with
      | none => exact Emits.nil fun _ => rfl
      | some trade =>
        simp only [↓reduceIte]
        split
        · exact (emits_persistTrade _ _).comp (emits_updateLastPrice hstatus _ _)
        · exact emits_persistTrade _ _

theorem emits_reportMessage (stamp : Stamp) (msg : BitstampWsMessage) (before after : Session) :
    Emits cfg (reportMessage cfg stamp msg before after)
      (messageUpdates cfg stamp msg before after) := by
  unfold reportMessage messageUpdates
  have hpersist := emits_persistIfSender hstatus stamp msg
  cases before.snapshotApplied with
  | false =>
    cases msg.messageType with
    | l2Snapshot | l2Update | event | unknown => exact Emits.nil fun _ => rfl
    | trade =>
      have htrade := emits_incTradesTotal.comp hpersist
      cases (tradeOf msg).bind fun trade => parseF64 trade.price with
      | none => exact htrade.comp (Emits.nil fun _ => rfl)
      | some px => exact htrade.comp (emits_updateLastPrice hstatus _ _)
  | true =>
    refine Emits.comp ?_ hpersist
    cases msg.messageType with
    | l2Snapshot | l2Update => exact emits_publish hstatus _ _
    | event | unknown => exact Emits.nil fun _ => rfl
    | trade =>
      cases tradeOf msg with
      | none => exact emits_incTradesTotal
      | some trade => exact emits_incTradesTotal.comp (emits_updateLastPrice hstatus _ _)

theorem emits_reportAnswer (stamp : Stamp) (a : RestAnswer) (after : Session) :
    Emits cfg (reportAnswer cfg stamp a after) (answerUpdates stamp a after) := by
  cases a with
  | ok snapshot => exact emits_publish hstatus _ _
  | badJson | failed => exact Emits.nil fun _ => rfl

omit hstatus in
def updates : client.Updates where
  message := messageUpdates
  answer _ stamp a _ := answerUpdates stamp a
  message_emits _ stamp msg before after hstatus :=
    emits_reportMessage hstatus stamp msg before after
  answer_emits _ stamp a _ after hstatus := emits_reportAnswer hstatus stamp a after

end Bitstamp

def Venue.updates (rfc3339 : String → Option ℤ) : (v : Venue) → (v.client rfc3339).Updates
  | okx => Okx.updates
  | kraken => Kraken.updates rfc3339
  | bitstamp => Bitstamp.updates

/-! ## The steps of a client -/

section Steps

variable {c : ClientSpec} (u : c.Updates) (cfg : Config)

def Conn.updates (filter : Option LobFilter) (conn : Conn c) (e : ConnEvent c) : List Update :=
  match e with
  | .arrive _ => []
  | .poll stamp =>
    match conn.reads e with
    | some msg =>
      u.message cfg stamp msg conn.session (c.onMessage cfg filter msg conn.session)
    | none => []
  | .answer stamp a =>
    match conn.takes e with
    | some _ => u.answer cfg stamp a conn.session (c.onAnswer cfg filter a conn.session)
    | none => []

/-- The read loop adds the update of a disconnect to those of the connection. -/
def Client.readUpdates (st : Client c) (e : ConnEvent c) : List Update :=
  st.conn.updates u cfg cfg.lobFilter e ++
    match e with
    | .poll stamp =>
      if (Conn.step cfg cfg.lobFilter (st.conn, st.world) e).1.ending = some .disconnected
          ∧ st.shutdown = false then
        [activeUpdate stamp.now false ("disconnected, attempt " ++ toString (st.attempt + 1))]
      else []
    | .arrive _ | .answer _ _ => []

def Client.updates (st : Client c) (e : Event c) : List Update :=
  match st.phase, e with
  | .connecting, .connected stamp => [activeUpdate stamp.now true (c.connectedDetail cfg)]
  | .connecting, .connectFailed stamp =>
    ((c.connectErrorDetail (st.attempt + 1)).map (activeUpdate stamp.now false)).toList
  | .subscribing false, .sent stamp => [activeUpdate stamp.now true (c.subscribedDetail cfg)]
  | .reading, .link e => st.readUpdates u cfg e
  | _, _ => []

variable {cfg} (hstatus : cfg.statusHandle = true)
include hstatus

theorem Conn.shared_step (filter : Option LobFilter) (st : Conn c × World) (e : ConnEvent c) :
    (Conn.step cfg filter st e).2.shared
      = (st.1.updates u cfg filter e).foldl (Shared.apply cfg) st.2.shared := by
  have heffect : Conn.Effect cfg filter st.1 st.2 e (Conn.step cfg filter st e) :=
    Conn.step_effect st e
  generalize Conn.step cfg filter st e = st' at heffect
  cases heffect with
  | quiet hreads htakes _ _ =>
    have hnone : st.1.updates u cfg filter e = [] := by
      cases e with
      | arrive item => rfl
      | poll stamp => simp only [Conn.updates, hreads]
      | answer stamp a => simp only [Conn.updates, htakes]
    rw [hnone]
    rfl
  | message hreads hsession _ =>
    simp only [Conn.updates, hreads, hsession]
    exact u.message_emits _ _ _ _ _ hstatus _
  | answer htakes hsession _ =>
    simp only [Conn.updates, htakes, hsession]
    exact u.answer_emits _ _ _ _ _ hstatus _

theorem Client.shared_read (st : Client c) (e : ConnEvent c) :
    (st.read cfg e).world.shared
      = (st.readUpdates u cfg e).foldl (Shared.apply cfg) st.world.shared := by
  have hconn := Conn.shared_step u hstatus cfg.lobFilter (st.conn, st.world) e
  unfold Client.read Client.readUpdates
  rw [List.foldl_append, ← hconn]
  cases e with
  | arrive item => rfl
  | answer stamp a =>
    dsimp only
    split <;> rfl
  | poll stamp =>
    dsimp only
    cases hending : (Conn.step cfg cfg.lobFilter (st.conn, st.world) (.poll stamp)).1.ending with
    | none =>
      dsimp only
      split <;> rfl
    | some ending =>
      cases ending with
      | panicked => rfl
      | disconnected =>
        cases hshutdown : st.shutdown with
        | true => rfl
        | false => exact emits_updateStatusActive hstatus _ _ _ _

/-- What a step does to the status map and the gauges is what its updates do. -/
theorem Client.shared_step (st : Client c) (e : Event c) :
    (st.step cfg e).world.shared
      = (st.updates u cfg e).foldl (Shared.apply cfg) st.world.shared := by
  cases hphase : st.phase with
  | connecting =>
    cases e with
    | connected stamp =>
      simp only [Client.step, Client.updates, hphase]
      exact emits_updateStatusActive hstatus _ _ _ _
    | connectFailed stamp =>
      simp only [Client.step, Client.updates, hphase]
      cases c.connectErrorDetail (st.attempt + 1) with
      | none => rfl
      | some detail => exact emits_updateStatusActive hstatus _ _ _ _
    | sent | sendFailed | link | signal | woken =>
      simp only [Client.step, Client.updates, hphase]
      rfl
  | subscribing second =>
    cases e with
    | sent stamp =>
      cases second with
      | false =>
        simp only [Client.step, Client.updates, hphase]
        exact emits_updateStatusActive hstatus _ _ _ _
      | true =>
        simp only [Client.step, Client.updates, hphase]
        rfl
    | link e =>
      -- a frame waits in the socket until the loop reads
      cases second <;> cases e <;> simp only [Client.step, Client.updates, hphase] <;> rfl
    | connected | connectFailed | sendFailed | signal | woken =>
      cases second <;> simp only [Client.step, Client.updates, hphase] <;> rfl
  | reading =>
    cases e with
    | link e =>
      simp only [Client.step, Client.updates, hphase]
      exact Client.shared_read u hstatus st e
    | signal =>
      simp only [Client.step, Client.updates, hphase]
      split <;> rfl
    | connected | connectFailed | sent | sendFailed | woken =>
      simp only [Client.step, Client.updates, hphase]
      rfl
  | sleeping site delay =>
    cases e with
    | woken signal =>
      simp only [Client.step, Client.updates, hphase, Client.wake]
      cases site <;> cases signal <;> rfl
    | connected | connectFailed | sent | sendFailed | link | signal =>
      simp only [Client.step, Client.updates, hphase]
      rfl
  | returned | panicked =>
    simp only [Client.step, Client.updates, hphase]
    rfl

end Steps

end Cryptomeria
