import Cryptomeria.Client.Ledger
import Cryptomeria.Client.MeasuredRows

/-!
# The tables after a whole run

A run goes through many connections, and the tables and the counters outlive them. What stands in
them at the end is what stood there before and then, message by message in the order of reading,
the rows of the messages whose flush succeeded. A reconnect loses no row and writes none twice
(`Venue.tables_run`); a REST answer, a status update and a shutdown write none.
-/

set_option autoImplicit false

namespace Cryptomeria

/-- A message that the loop reads, with the session that it meets. -/
structure Handled (c : ClientSpec) where
  stamp : Stamp
  session : c.Session
  msg : c.Msg

/-- The rows of the message get into the tables: there is a sender and it flushes them. -/
def Handled.flushed {c : ClientSpec} (cfg : Config) (h : Handled c) : Bool :=
  cfg.sender && h.stamp.flushOk

/-! ## What the steps of a client record -/

namespace World

/-- The tables and the counters are as before. -/
structure SameTables (cfg : Config) (w w' : World) : Prop where
  lobLevels : w'.lobLevels = w.lobLevels
  trades : w'.trades = w.trades
  tradeCount : w'.tradeCount cfg = w.tradeCount cfg
  messagesReceived : w'.messagesReceived = w.messagesReceived

variable {cfg : Config}

theorem SameTables.refl (w : World) : SameTables cfg w w := ⟨rfl, rfl, rfl, rfl⟩

theorem SameTables.trans {w w' w'' : World} (h : SameTables cfg w w')
    (h' : SameTables cfg w' w'') : SameTables cfg w w'' :=
  ⟨h'.lobLevels.trans h.lobLevels, h'.trades.trans h.trades, h'.tradeCount.trans h.tradeCount,
    h'.messagesReceived.trans h.messagesReceived⟩

theorem sameTables_updateStatusActive (now : ℕ) (active : Bool) (detail : String) (w : World) :
    SameTables cfg w (w.updateStatusActive cfg now active detail) := by
  unfold updateStatusActive
  split
  · exact ⟨rfl, rfl, rfl, rfl⟩
  · exact SameTables.refl w

theorem modifyStatus_messagesReceived {f : ClientStatus → ClientStatus} {w : World} :
    (modifyStatus cfg f w).messagesReceived = w.messagesReceived := by
  unfold modifyStatus
  split
  · split <;> rfl
  · rfl

theorem sameTables_modifyStatus (f : ClientStatus → ClientStatus) (w : World) :
    SameTables cfg w (modifyStatus cfg f w) :=
  ⟨modifyStatus_lobLevels, modifyStatus_trades,
    tradeCount_congr (congrArg LobMetrics.tradesTotal modifyStatus_metrics),
    modifyStatus_messagesReceived⟩

theorem sameTables_publish (now : ℕ) (book : OrderBook) (w : World) :
    SameTables cfg w (w.publish cfg now book) := by
  have hlob : SameTables cfg w (w.updateLobMetrics cfg now book) := by
    refine SameTables.trans ?_ (sameTables_modifyStatus _ _)
    exact ⟨rfl, rfl, tradeCount_congr rfl, rfl⟩
  exact hlob.trans ⟨rfl, rfl, tradeCount_congr rfl, rfl⟩

end World

/-- The message that arrives with the event. -/
def Event.message {c : ClientSpec} : Event c → Option c.Msg
  | .link e => e.message
  | _ => none

namespace Client

variable {c : ClientSpec}

/-- The message that a step makes the loop read. -/
def reads (st : Client c) : Event c → List (Handled c)
  | .link (.poll stamp) =>
    if st.phase = .reading then
      ((st.conn.reads (.poll stamp)).map fun msg =>
        { stamp, session := st.conn.session, msg }).toList
    else []
  | _ => []

/-- All messages that a run reads, over all its connections. -/
def handled (cfg : Config) (st : Client c) (es : List (Event c)) : List (Handled c) :=
  Trace.output (step cfg) reads st es

open World

/-- The tables after a step that reads these messages. -/
inductive Records (cfg : Config) (st : Client c) : List (Handled c) → World → Prop
  | nothing {w : World} (h : SameTables cfg st.world w) : Records cfg st [] w
  | message {stamp : Stamp} {msg : c.Msg} {after : c.Session} {w : World}
      (h : SameTables cfg (c.reportMessage cfg stamp msg st.conn.session after
        { st.world with messagesReceived := st.world.messagesReceived + 1 }) w) :
      Records cfg st [{ stamp, session := st.conn.session, msg }] w
  | answer {stamp : Stamp} {a : c.Answer} {after : c.Session} {w : World}
      (h : SameTables cfg (c.reportAnswer cfg stamp a st.conn.session after st.world) w) :
      Records cfg st [] w

variable {cfg : Config} {st : Client c}

theorem sameTables_read (e : ConnEvent c) :
    SameTables cfg (Conn.step cfg cfg.lobFilter (st.conn, st.world) e).2
      (st.read cfg e).world := by
  unfold read
  cases e with
  | arrive item => exact SameTables.refl _
  | answer stamp a =>
    dsimp only
    split <;> exact SameTables.refl _
  | poll stamp =>
    dsimp only
    split
    · exact SameTables.refl _
    · split
      · exact SameTables.refl _
      · exact sameTables_updateStatusActive _ _ _ _
    · split <;> exact SameTables.refl _

/-- In the read loop a step records what the handler of its message records. -/
theorem records_read (hphase : st.phase = .reading) (e : ConnEvent c) :
    Records cfg st (st.reads (.link e)) (st.read cfg e).world := by
  have hsame : SameTables cfg _ (st.read cfg e).world := sameTables_read e
  have heffect : Conn.Effect cfg cfg.lobFilter st.conn st.world e
      (Conn.step cfg cfg.lobFilter (st.conn, st.world) e) := Conn.step_effect (st.conn, st.world) e
  generalize Conn.step cfg cfg.lobFilter (st.conn, st.world) e = st' at hsame heffect
  cases heffect with
  | quiet hreads _ _ _ =>
    have hnone : st.reads (.link e) = [] := by
      cases e with
      | poll stamp => simp only [reads, hphase, if_true, hreads, Option.map_none, Option.toList]
      | arrive | answer => rfl
    rw [hnone]
    exact .nothing hsame
  | message hreads _ _ =>
    simp only [reads, hphase, if_true, hreads, Option.map_some, Option.toList]
    exact .message hsame
  | answer _ _ _ => exact .answer hsame

theorem reads_eq_nil (h : st.phase ≠ .reading) (e : Event c) : st.reads e = [] := by
  unfold reads
  split
  · rw [if_neg h]
  · rfl

/-- **What a step records**: what the handler of its message records, and no more. -/
theorem records_step (st : Client c) (e : Event c) :
    Records cfg st (st.reads e) (st.step cfg e).world := by
  by_cases hphase : st.phase = .reading
  · cases e with
    | link e =>
      simp only [step, hphase]
      exact records_read hphase e
    | signal =>
      simp only [step, hphase]
      split <;> exact .nothing (SameTables.refl _)
    | connected | connectFailed | sent | sendFailed | woken =>
      simp only [step, hphase]
      exact .nothing (SameTables.refl _)
  · rw [reads_eq_nil hphase]
    refine .nothing ?_
    unfold step
    split
    · exact sameTables_updateStatusActive _ _ _ _
    · dsimp only [sleep]
      split
      · exact sameTables_updateStatusActive _ _ _ _
      · exact SameTables.refl _
    · exact sameTables_updateStatusActive _ _ _ _
    · exact SameTables.refl _
    · exact SameTables.refl _
    · exact SameTables.refl _
    · rename_i hreading
      exact absurd hreading hphase
    · rename_i hreading
      exact absurd hreading hphase
    · rename_i site delay signal _
      cases site <;> cases signal <;> exact SameTables.refl _
    · exact SameTables.refl _

/-! ## Where the messages come from -/

theorem read_conn (cfg : Config) (st : Client c) (e : ConnEvent c) :
    (st.read cfg e).conn = (Conn.step cfg cfg.lobFilter (st.conn, st.world) e).1 := by
  unfold read
  cases e with
  | arrive item => rfl
  | answer stamp a =>
    dsimp only
    split <;> rfl
  | poll stamp =>
    dsimp only
    split
    · rfl
    · split <;> rfl
    · split <;> rfl

/-- What a step does with the connection: nothing, or it starts a new one, or the connection takes
the event. -/
inductive Links (cfg : Config) (st : Client c) : Event c → Conn c → Prop
  | idle {e : Event c} (hreads : st.reads e = []) : Links cfg st e st.conn
  | fresh {e : Event c} (hreads : st.reads e = []) : Links cfg st e (Conn.new c cfg)
  | taken {e : ConnEvent c}
      (hreads : (st.reads (.link e)).map Handled.msg = (st.conn.reads e).toList) :
      Links cfg st (.link e) (Conn.step cfg cfg.lobFilter (st.conn, st.world) e).1

theorem links_step (st : Client c) (e : Event c) : Links cfg st e (st.step cfg e).conn := by
  by_cases hphase : st.phase = .reading
  · cases e with
    | link e =>
      simp only [step, hphase]
      rw [read_conn]
      refine .taken ?_
      cases e with
      | arrive | answer => rfl
      | poll stamp =>
        simp only [reads, hphase, if_true]
        cases st.conn.reads (.poll stamp) <;> rfl
    | signal =>
      simp only [step, hphase]
      split <;> exact .idle rfl
    | connected | connectFailed | sent | sendFailed | woken =>
      simp only [step, hphase]
      exact .idle rfl
  · have hnone : st.reads e = [] := reads_eq_nil hphase e
    unfold step
    split
    · exact .fresh rfl
    · exact .idle hnone
    · exact .idle hnone
    · exact .idle hnone
    · exact .idle hnone
    · rw [read_conn]
      exact .taken rfl
    · rename_i hreading
      exact absurd hreading hphase
    · rename_i hreading
      exact absurd hreading hphase
    · rename_i site delay signal _
      cases site <;> cases signal <;> exact .idle hnone
    · exact .idle hnone

/-- The messages that wait in the socket. -/
def waiting (st : Client c) : List c.Msg := st.conn.socket.filterMap ReadItem.message

/-- A step reads and leaves waiting at most what waited and what arrives with it, in this order. A
new connection forgets what waited. -/
theorem waiting_step (st : Client c) (e : Event c) :
    ((st.reads e).map Handled.msg ++ (st.step cfg e).waiting).Sublist
      (st.waiting ++ e.message.toList) := by
  have hlinks : Links cfg st e (st.step cfg e).conn := links_step st e
  rw [waiting]
  generalize (st.step cfg e).conn = conn at hlinks ⊢
  cases hlinks with
  | idle hreads =>
    rw [hreads]
    exact List.sublist_append_left _ _
  | fresh hreads =>
    rw [hreads]
    exact List.nil_sublist _
  | taken hreads =>
    rename_i e
    have harrived := @Conn.arrived_step _ cfg cfg.lobFilter (st.conn, st.world) e
    rw [Conn.arrived, Conn.received_step, Conn.arrived, List.append_assoc, List.append_assoc]
      at harrived
    rw [hreads, List.append_cancel_left harrived]
    exact List.Sublist.refl _

/-- A run reads what arrives, in the order of arrival; some of it may be left unread. -/
theorem handled_sublist (cfg : Config) (st : Client c) (es : List (Event c)) :
    ((st.handled cfg es).map Handled.msg).Sublist (st.waiting ++ es.filterMap Event.message) :=
  (List.sublist_append_left _ _).trans
    (Trace.output_sublist waiting Event.message Handled.msg (@waiting_step _ cfg) st es)

/-! ## The session of the current connection -/

/-- What a step reads joins what the connection has read, unless a new connection begins. -/
theorem received_step (cfg : Config) (st : Client c) (e : Event c) :
    (st.step cfg e).conn.received = st.conn.received ++ (st.reads e).map Handled.msg ∨
      (st.step cfg e).conn = Conn.new c cfg := by
  have hlinks : Links cfg st e (st.step cfg e).conn := links_step st e
  generalize (st.step cfg e).conn = conn at hlinks ⊢
  cases hlinks with
  | idle hreads =>
    rw [hreads]
    exact Or.inl (List.append_nil _).symm
  | fresh hreads => exact Or.inr rfl
  | taken hreads => exact Or.inl (by rw [hreads, Conn.received_step])

/-- What the current connection has read are the last messages of the run. -/
theorem received_suffix (cfg : Config) (w : World) (es : List (Event c)) :
    (run c cfg w es).conn.received <:+ ((start c cfg w).handled cfg es).map Handled.msg := by
  induction es using List.reverseRecOn with
  | nil => exact List.suffix_rfl
  | append_singleton es e ih =>
    rw [handled, Trace.output_concat, ← handled, List.map_append, run, List.foldl_concat, ← run]
    rcases @received_step _ cfg (run c cfg w es) e with hread | hnew
    · rw [hread]
      obtain ⟨before, hbefore⟩ := ih
      refine ⟨before, ?_⟩
      rw [← List.append_assoc, hbefore]
    · rw [hnew]
      exact List.nil_suffix

/-- Where answers do not touch it, the session comes from the messages of its connection alone. -/
theorem session_eq (hanswer : ∀ a session, c.onAnswer cfg cfg.lobFilter a session = session)
    (w : World) (es : List (Event c)) :
    (run c cfg w es).conn.session = (run c cfg w es).conn.received.foldl
      (fun session msg => c.onMessage cfg cfg.lobFilter msg session) (c.newSession cfg) := by
  induction es using List.reverseRecOn with
  | nil => rfl
  | append_singleton es e ih =>
    rw [run, List.foldl_concat, ← run]
    have hlinks : Links cfg (run c cfg w es) e ((run c cfg w es).step cfg e).conn :=
      links_step _ e
    generalize ((run c cfg w es).step cfg e).conn = conn at hlinks ⊢
    cases hlinks with
    | idle => exact ih
    | fresh => rfl
    | taken =>
      rename_i e _
      have heffect : Conn.Effect cfg cfg.lobFilter _ _ e
          (Conn.step cfg cfg.lobFilter ((run c cfg w es).conn, (run c cfg w es).world) e) :=
        Conn.step_effect _ e
      generalize Conn.step cfg cfg.lobFilter _ e = next at heffect ⊢
      cases heffect with
      | quiet _ _ hsession hreceived => rw [hsession, hreceived, ih]
      | message _ hsession hreceived =>
        rw [hsession, hreceived, List.foldl_concat, ← ih]
      | answer _ hsession hreceived => rw [hsession, hreceived, hanswer, ih]

end Client

/-! ## The handlers -/

namespace World

variable {cfg : Config} {stamp : Stamp} {w : World}

/-- One row for each level, all with the timestamp of the message. -/
def levelRows (cfg : Config) (tsMs : ℕ) (action : String) (levels : List (Side × Okx.LobLevel))
    (best : Side → Option F64) : List LobLevelRow :=
  lobRows cfg.cliInstrument cfg.exchange tsMs action levels (best .bid) (best .ask)

theorem lobLevels_persistLob (tsMs : ℕ) (action : String) (levels : List (Side × Okx.LobLevel))
    (best : Side → Option F64) :
    (w.persistLob cfg stamp tsMs action levels (best .bid) (best .ask)).lobLevels
      = w.lobLevels ++ if stamp.flushOk then levelRows cfg tsMs action levels best else [] := by
  cases hflush : stamp.flushOk with
  | true => exact persistLob_lobLevels hflush
  | false => simp [persistLob, hflush]

theorem trades_persistTrade_eq (trade : TradeData) :
    (w.persistTrade stamp trade).trades
      = w.trades ++ if stamp.flushOk then [trade.row] else [] := by
  unfold persistTrade
  split <;> simp

theorem messagesReceived_persistTrade (trade : TradeData) :
    (w.persistTrade stamp trade).messagesReceived = w.messagesReceived := by
  unfold persistTrade
  split <;> rfl

theorem messagesReceived_persistLob (tsMs : ℕ) (action : String)
    (levels : List (Side × Okx.LobLevel)) (bestBid bestAsk : Option F64) :
    (w.persistLob cfg stamp tsMs action levels bestBid bestAsk).messagesReceived
      = w.messagesReceived := by
  unfold persistLob
  split <;> rfl

/-- `f` writes these rows, if they are kept, and receives nothing. -/
structure Appends (kept : Bool) (f : World → World) (lob : List LobLevelRow)
    (trades : List TradeRow) : Prop where
  lobLevels : ∀ w, (f w).lobLevels = w.lobLevels ++ if kept then lob else []
  trades : ∀ w, (f w).trades = w.trades ++ if kept then trades else []
  messagesReceived : ∀ w, (f w).messagesReceived = w.messagesReceived

variable {kept : Bool} {f g : World → World} {lob : List LobLevelRow} {trades : List TradeRow}

theorem Appends.id : Appends kept id [] [] := by
  constructor <;> simp

theorem SameTables.appends (h : ∀ w, SameTables cfg w (f w)) : Appends kept f [] [] where
  lobLevels w := by simp [(h w).lobLevels]
  trades w := by simp [(h w).trades]
  messagesReceived w := (h w).messagesReceived

/-- What comes before the rows are written. -/
theorem Appends.after (hf : Appends kept f lob trades) (hg : Appends kept g [] []) :
    Appends kept (fun w => f (g w)) lob trades where
  lobLevels w := by simp [hf.lobLevels, hg.lobLevels]
  trades w := by simp [hf.trades, hg.trades]
  messagesReceived w := by rw [hf.messagesReceived, hg.messagesReceived]

/-- What comes after the rows are written. -/
theorem Appends.before (hf : Appends kept f lob trades) (hg : Appends kept g [] []) :
    Appends kept (fun w => g (f w)) lob trades where
  lobLevels w := by simp [hf.lobLevels, hg.lobLevels]
  trades w := by simp [hf.trades, hg.trades]
  messagesReceived w := by rw [hg.messagesReceived, hf.messagesReceived]

theorem Appends.ite {p : Prop} [Decidable p] (hf : Appends kept f lob trades)
    (hg : Appends kept g lob trades) :
    Appends kept (fun w => if p then f w else g w) lob trades := by
  split
  · exact hf
  · exact hg

/-- Without a sender nothing is written. -/
theorem Appends.ifSender (hf : Appends kept f lob trades) :
    Appends (cfg.sender && kept) (fun w => if cfg.sender then f w else w) lob trades := by
  cases hsender : cfg.sender with
  | true => simpa using hf
  | false => constructor <;> simp

theorem appends_persistLob (tsMs : ℕ) (action : String) (levels : List (Side × Okx.LobLevel))
    (best : Side → Option F64) :
    Appends stamp.flushOk (persistLob cfg stamp tsMs action levels (best .bid) (best .ask))
      (levelRows cfg tsMs action levels best) [] where
  lobLevels _ := lobLevels_persistLob tsMs action levels best
  trades w := by simp
  messagesReceived _ := messagesReceived_persistLob _ _ _ _ _

theorem appends_persistTrade (trade : TradeData) :
    Appends stamp.flushOk (persistTrade stamp trade) [] [trade.row] where
  lobLevels w := by simp
  trades _ := trades_persistTrade_eq trade
  messagesReceived _ := messagesReceived_persistTrade trade

theorem appends_updateLastPrice (now : ℕ) (price : F64) :
    Appends kept (updateLastPrice cfg now price) [] [] :=
  SameTables.appends (sameTables_modifyStatus _)

theorem appends_publish (now : ℕ) (book : OrderBook) :
    Appends kept (publish cfg now book) [] [] :=
  SameTables.appends (sameTables_publish now book)

theorem appends_incTradesTotal : Appends kept (incTradesTotal cfg) [] [] where
  lobLevels w := by simp
  trades w := by simp
  messagesReceived _ := rfl

end World

/-- The rows that the handlers of a client write for a message, and by how much they raise
`trades_total`. -/
structure ClientSpec.Journal (c : ClientSpec) where
  lobRows : Config → c.Session → c.Msg → List LobLevelRow
  tradeRows : Config → c.Session → c.Msg → List TradeRow
  counted : c.Msg → ℕ
  message_appends : ∀ cfg stamp msg before after,
    World.Appends (cfg.sender && stamp.flushOk) (c.reportMessage cfg stamp msg before after)
      (lobRows cfg before msg) (tradeRows cfg before msg)
  message_count : ∀ cfg stamp msg before after w,
    (c.reportMessage cfg stamp msg before after w).tradeCount cfg = w.tradeCount cfg + counted msg
  answer_same : ∀ cfg stamp a before after w,
    World.SameTables cfg w (c.reportAnswer cfg stamp a before after w)

namespace Okx

variable {cfg : Config} {stamp : Stamp}

/-- The rows of a book message. -/
def lobRows (cfg : Config) (msg : OkxWsMessage) : List LobLevelRow :=
  let tsMs := msg.timestampMs.getD 0
  match msg.messageType with
  | .l2Snapshot => World.levelRows cfg tsMs "snapshot" msg.lobLevels (takenForBest msg)
  | .l2Update => World.levelRows cfg tsMs "update" msg.lobLevels (takenForBest msg)
  | _ => []

/-- The row of a trade message. -/
def tradeRows (cfg : Config) (msg : OkxWsMessage) : List TradeRow :=
  match msg.messageType with
  | .trade => (firstTrade msg).toList.map fun trade =>
      { instId := cfg.cliInstrument, exchange := cfg.exchange, tradeId := trade.tradeId
        side := trade.side, px := trade.numbers.1, sz := trade.numbers.2
        timestamp := timestampNanos (msg.timestampMs.getD 0) }
  | _ => []

theorem appends_persistMessage (msg : OkxWsMessage) :
    World.Appends stamp.flushOk (persistMessage cfg stamp msg) (lobRows cfg msg)
      (tradeRows cfg msg) := by
  unfold persistMessage lobRows tradeRows
  cases hm : msg.messageType with
  | l2Snapshot =>
    have hread : msg.lobSnapshot = msg.data.head?.bind LobData.ofValue := by
      simp [OkxWsMessage.lobSnapshot, action_of_messageType.1 hm]
    simp only [hread]
    exact World.appends_persistLob _ _ _ (takenForBest msg)
  | l2Update =>
    have hread : msg.lobUpdate = msg.data.head?.bind LobData.ofValue := by
      simp [OkxWsMessage.lobUpdate, action_of_messageType.2 hm]
    simp only [hread]
    exact World.appends_persistLob _ _ _ (takenForBest msg)
  | trade =>
    cases firstTrade msg with
    | none => exact World.Appends.id
    | some trade =>
      exact ((World.appends_persistTrade _).before (World.appends_updateLastPrice _ _)).ite
        (World.appends_persistTrade _)
  | l2 | event | unknown => exact World.Appends.id

theorem appends_reportMessage (msg : OkxWsMessage) (b : OrderBook) :
    World.Appends (cfg.sender && stamp.flushOk) (reportMessage cfg stamp msg b) (lobRows cfg msg)
      (tradeRows cfg msg) := by
  unfold reportMessage
  refine (appends_persistMessage msg).ifSender.after ?_
  cases msg.messageType with
  | l2Snapshot | l2Update | l2 => exact World.appends_publish _ _
  | trade | event | unknown =>
    cases firstTrade msg with
    | none => exact World.Appends.id
    | some trade =>
      dsimp only
      cases parseF64 trade.px with
      | none => exact World.appends_incTradesTotal
      | some px => exact World.appends_incTradesTotal.before (World.appends_updateLastPrice _ _)

def journal : client.Journal where
  lobRows cfg _ msg := lobRows cfg msg
  tradeRows cfg _ msg := tradeRows cfg msg
  counted := counted
  message_appends _ _ msg _ b := appends_reportMessage msg b
  message_count _ _ msg _ b w := tradeCount_reportMessage msg b w
  answer_same _ _ a := a.elim

end Okx

namespace Kraken

variable {rfc3339 : String → Option ℤ} {cfg : Config} {stamp : Stamp}

/-- The rows of a book message, with eight decimals. -/
def lobRows (rfc3339 : String → Option ℤ) (cfg : Config) (msg : KrakenWsMessage) :
    List LobLevelRow :=
  let tsMs := (msg.timestampMs rfc3339).getD 0
  let levels := msg.lobLevels.map fun l => (l.1, toOkxLevel l.2)
  match msg.messageType with
  | .l2Snapshot => World.levelRows cfg tsMs "snapshot" levels (takenForBest msg)
  | .l2Update => World.levelRows cfg tsMs "update" levels (takenForBest msg)
  | _ => []

/-- The row of a trade message. -/
def tradeRows (rfc3339 : String → Option ℤ) (cfg : Config) (msg : KrakenWsMessage) :
    List TradeRow :=
  match msg.messageType with
  | .trade => (firstTrade msg).toList.map fun trade =>
      { instId := cfg.cliInstrument, exchange := cfg.exchange, tradeId := trade.tradeId
        side := trade.side, px := trade.price, sz := trade.qty
        timestamp := timestampNanos ((msg.timestampMs rfc3339).getD 0) }
  | _ => []

theorem appends_persistMessage (msg : KrakenWsMessage) :
    World.Appends stamp.flushOk (persistMessage rfc3339 cfg stamp msg) (lobRows rfc3339 cfg msg)
      (tradeRows rfc3339 cfg msg) := by
  unfold persistMessage lobRows tradeRows
  cases hm : msg.messageType with
  | l2Snapshot =>
    obtain ⟨hchannel, htype⟩ := type_of_messageType.1 hm
    have hread : msg.lobSnapshot = msg.data.head?.bind LobData.ofValue := by
      simp [KrakenWsMessage.lobSnapshot, hchannel, htype]
    simp only [hread]
    exact World.appends_persistLob _ _ _ (takenForBest msg)
  | l2Update =>
    obtain ⟨hchannel, htype⟩ := type_of_messageType.2 hm
    have hread : msg.lobUpdate = msg.data.head?.bind LobData.ofValue := by
      simp [KrakenWsMessage.lobUpdate, hchannel, htype]
    simp only [hread]
    exact World.appends_persistLob _ _ _ (takenForBest msg)
  | trade =>
    cases firstTrade msg with
    | none => exact World.Appends.id
    | some trade => exact World.appends_persistTrade _
  | l2 | event | status | heartbeat | unknown => exact World.Appends.id

theorem appends_reportMessage (msg : KrakenWsMessage) (b : OrderBook) :
    World.Appends (cfg.sender && stamp.flushOk) (reportMessage rfc3339 cfg stamp msg b)
      (lobRows rfc3339 cfg msg) (tradeRows rfc3339 cfg msg) := by
  unfold reportMessage
  refine (appends_persistMessage msg).ifSender.after ?_
  cases msg.messageType with
  | l2Snapshot | l2Update | l2 => exact World.appends_publish _ _
  | trade =>
    cases firstTrade msg with
    | none => exact World.appends_incTradesTotal
    | some trade => exact World.appends_incTradesTotal.before (World.appends_updateLastPrice _ _)
  | event | status | heartbeat | unknown => exact World.Appends.id

def journal (rfc3339 : String → Option ℤ) : (client rfc3339).Journal where
  lobRows cfg _ msg := lobRows rfc3339 cfg msg
  tradeRows cfg _ msg := tradeRows rfc3339 cfg msg
  counted := counted
  message_appends _ _ msg _ b := appends_reportMessage msg b
  message_count _ _ msg _ b w := tradeCount_reportMessage msg b w
  answer_same _ _ a := a.elim

end Kraken

namespace Bitstamp

variable {cfg : Config} {stamp : Stamp}

/-- The rows of a book message. Everything is an update for the table. -/
def lobRows (cfg : Config) (msg : BitstampWsMessage) : List LobLevelRow :=
  match msg.messageType with
  | .l2Snapshot | .l2Update =>
    World.levelRows cfg (msg.timestampMs.getD 0) "update"
      (msg.lobLevels.map fun l => (l.1, l.2.toOkx)) (takenForBest msg)
  | _ => []

/-- The row of a trade message. -/
def tradeRows (cfg : Config) (msg : BitstampWsMessage) : List TradeRow :=
  match msg.messageType with
  | .trade => (tradeOf msg).toList.map fun (trade : TradeData) =>
      { instId := cfg.cliInstrument, exchange := cfg.exchange, tradeId := toString trade.id
        side := if trade.tradeType = 0 then "buy" else "sell"
        px := trade.numbers.1, sz := trade.numbers.2
        timestamp := timestampNanos (msg.timestampMs.getD 0) }
  | _ => []

theorem appends_persistMessage (msg : BitstampWsMessage) :
    World.Appends stamp.flushOk (persistMessage cfg stamp msg) (lobRows cfg msg)
      (tradeRows cfg msg) := by
  unfold persistMessage lobRows tradeRows
  cases msg.messageType with
  | l2Snapshot | l2Update => exact World.appends_persistLob _ _ _ (takenForBest msg)
  | trade =>
    cases tradeOf msg with
    | none => exact World.Appends.id
    | some trade =>
      exact ((World.appends_persistTrade _).before (World.appends_updateLastPrice _ _)).ite
        (World.appends_persistTrade _)
  | event | unknown => exact World.Appends.id

/-- Before the snapshot is applied no book message is written. -/
theorem appends_reportMessage (msg : BitstampWsMessage) (before after : Session) :
    World.Appends (cfg.sender && stamp.flushOk) (reportMessage cfg stamp msg before after)
      (if before.snapshotApplied then lobRows cfg msg else []) (tradeRows cfg msg) := by
  have hpersist : World.Appends (cfg.sender && stamp.flushOk) (persistIfSender cfg stamp msg)
      (lobRows cfg msg) (tradeRows cfg msg) := (appends_persistMessage msg).ifSender
  unfold reportMessage
  cases before.snapshotApplied with
  | true =>
    refine hpersist.after ?_
    cases msg.messageType with
    | l2Snapshot | l2Update => exact World.appends_publish _ _
    | trade =>
      cases tradeOf msg with
      | none => exact World.appends_incTradesTotal
      | some trade => exact World.appends_incTradesTotal.before (World.appends_updateLastPrice _ _)
    | event | unknown => exact World.Appends.id
  | false =>
    cases hm : msg.messageType with
    | trade =>
      have hlob : lobRows cfg msg = [] := by simp only [lobRows, hm]
      rw [hlob] at hpersist
      have hcount := hpersist.after (@World.appends_incTradesTotal cfg _)
      dsimp only
      cases (tradeOf msg).bind fun trade => parseF64 trade.price with
      | none => exact hcount
      | some px => exact hcount.before (World.appends_updateLastPrice _ _)
    | l2Update | event | unknown | l2Snapshot =>
      simp only [tradeRows, hm]
      exact World.Appends.id

def journal : client.Journal where
  lobRows cfg before msg := if before.snapshotApplied then lobRows cfg msg else []
  tradeRows cfg _ msg := tradeRows cfg msg
  counted := counted
  message_appends _ _ msg before after := appends_reportMessage msg before after
  message_count _ _ msg before after w := tradeCount_reportMessage msg before after w
  answer_same _ stamp a _ after w := by
    cases a with
    | ok snapshot => exact World.sameTables_publish _ _ _
    | badJson | failed => exact World.SameTables.refl w

end Bitstamp

def Venue.journal (rfc3339 : String → Option ℤ) :
    (x : Venue) → (x.client rfc3339).Journal
  | okx => Okx.journal
  | kraken => Kraken.journal rfc3339
  | bitstamp => Bitstamp.journal

/-! ## The run -/

namespace ClientSpec.Journal

variable {c : ClientSpec} (j : c.Journal) {cfg : Config}

/-- The rows of a message, if they get into the table. -/
def lobOf (cfg : Config) (h : Handled c) : List LobLevelRow :=
  if h.flushed cfg then j.lobRows cfg h.session h.msg else []

def tradesOf (cfg : Config) (h : Handled c) : List TradeRow :=
  if h.flushed cfg then j.tradeRows cfg h.session h.msg else []

/-- What a step adds to the tables and the counters. -/
structure Adds (cfg : Config) (w : World) (hs : List (Handled c)) (w' : World) : Prop where
  lobLevels : w'.lobLevels = w.lobLevels ++ hs.flatMap (j.lobOf cfg)
  trades : w'.trades = w.trades ++ hs.flatMap (j.tradesOf cfg)
  tradeCount : w'.tradeCount cfg = w.tradeCount cfg + (hs.map fun h => j.counted h.msg).sum
  messagesReceived : w'.messagesReceived = w.messagesReceived + hs.length

theorem adds_of_records {st : Client c} {hs : List (Handled c)} {w : World}
    (h : st.Records cfg hs w) : j.Adds cfg st.world hs w := by
  cases h with
  | nothing h =>
    exact ⟨by simp [h.lobLevels], by simp [h.trades], h.tradeCount, h.messagesReceived⟩
  | answer h =>
    replace h := (j.answer_same _ _ _ _ _ _).trans h
    exact ⟨by simp [h.lobLevels], by simp [h.trades], h.tradeCount, h.messagesReceived⟩
  | message h =>
    rename_i stamp msg after
    have happends := j.message_appends cfg stamp msg st.conn.session after
    refine ⟨?_, ?_, ?_, ?_⟩
    · rw [h.lobLevels, happends.lobLevels]
      simp [lobOf, Handled.flushed]
    · rw [h.trades, happends.trades]
      simp [tradesOf, Handled.flushed]
    · rw [h.tradeCount, j.message_count]
      rfl
    · rw [h.messagesReceived, happends.messagesReceived]
      rfl

theorem adds_run (st : Client c) (es : List (Event c)) :
    j.Adds cfg st.world (st.handled cfg es) (es.foldl (Client.step cfg) st).world := by
  have hstep : ∀ (st : Client c) (e : Event c),
      j.Adds cfg st.world (st.reads e) (st.step cfg e).world :=
    fun st e => j.adds_of_records (Client.records_step st e)
  refine ⟨?_, ?_, ?_, ?_⟩
  · exact Trace.eq_append_output (fun st : Client c => st.world.lobLevels) _
      (fun st e => (hstep st e).lobLevels) st es
  · exact Trace.eq_append_output (fun st : Client c => st.world.trades) _
      (fun st e => (hstep st e).trades) st es
  · exact Trace.eq_add_output (fun st : Client c => st.world.tradeCount cfg) _
      (fun st e => (hstep st e).tradeCount) st es
  · have hreceived := Trace.eq_add_output (fun st : Client c => st.world.messagesReceived)
      (fun _ => 1) (fun st e => by simpa using (hstep st e).messagesReceived) st es
    simpa [Client.handled] using hreceived

end ClientSpec.Journal

/-- **The tables after a run.** In every run of a client, over all its connections, the messages
that the loop reads are some of those that arrived, in their order. `lob_levels` and `trades` are
what they were before and then the rows of these messages whose flush succeeded, message by message
and once each; `trades_total` and the count of messages have gone up by these messages alone. -/
theorem Venue.tables_run (x : Venue) (rfc3339 : String → Option ℤ) (cfg : Config) (w : World)
    (es : List (Event (x.client rfc3339))) :
    (((Client.start _ cfg w).handled cfg es).map Handled.msg).Sublist
        (es.filterMap Event.message) ∧
      (x.journal rfc3339).Adds cfg w ((Client.start _ cfg w).handled cfg es)
        (Client.run _ cfg w es).world :=
  ⟨Client.handled_sublist cfg (Client.start _ cfg w) es,
    (x.journal rfc3339).adds_run (Client.start _ cfg w) es⟩

end Cryptomeria
