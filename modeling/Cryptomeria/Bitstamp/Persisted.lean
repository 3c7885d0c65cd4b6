import Cryptomeria.Bitstamp.Session
import Cryptomeria.Client.Persist

/-!
# The persisted stream and the book

The rows of `lob_levels` that a Bitstamp session writes, replayed from an empty book. The live
branch persists what it applies; the snapshot and the buffered diffs are applied without being
written. So the rows rebuild the book only where the snapshot and the replayed diffs leave nothing
in it, and each live message writes the levels that it applies (`persisted_rebuild`).

A session has a filter, and the rows do not depend on it. The book to compare with is the one of
the same session without a filter, which runs beside it.
-/

set_option autoImplicit false

namespace Cryptomeria

open WriteLog

/-! ## Rebuilding a book from rows -/

/-- A row on a book: size 0 removes the price, any other size is stored, and the first of the rows
of a snapshot clears the book before. The flag says whether the last row was one of a snapshot. -/
def replayRow (st : OrderBook × Bool) (row : LobLevelRow) : OrderBook × Bool :=
  let snapshot := decide (row.action = "snapshot")
  let b := if snapshot && !st.2 then OrderBook.new else st.1
  (b.setSide row.side (write (b.side row.side) (writeOf (row.price, row.size))), snapshot)

def rebuild (rows : List LobLevelRow) : OrderBook := (rows.foldl replayRow (OrderBook.new, false)).1

/-- The prices and sizes of the rows of a side. -/
def rowsOn (s : Side) (rows : List LobLevelRow) : List (F64 × F64) :=
  (rows.filter fun row => row.side = s).map fun row => (row.price, row.size)

theorem side_replayRow {st : OrderBook × Bool} {row : LobLevelRow} (h : row.action = "update")
    (s : Side) :
    (replayRow st row).1.side s
      = if row.side = s then write (st.1.side s) (writeOf (row.price, row.size))
        else st.1.side s := by
  have hno : decide (row.action = "snapshot") = false := by
    rw [h]
    rfl
  simp only [replayRow, hno, Bool.false_and, Bool.false_eq_true, if_false]
  by_cases hs : row.side = s
  · subst hs
    simp
  · rw [OrderBook.side_setSide_of_ne _ hs, if_neg hs]

/-- Rows of updates are replayed one after the other, each on its side. -/
theorem side_rebuild {rows : List LobLevelRow} (h : ∀ row ∈ rows, row.action = "update")
    (s : Side) : (rebuild rows).side s = replay ∅ (writes (rowsOn s rows)) := by
  have hloop : ∀ st : OrderBook × Bool, (rows.foldl replayRow st).1.side s
      = replay (st.1.side s) (writes (rowsOn s rows)) := by
    induction rows with
    | nil =>
      intro st
      rfl
    | cons row rows ih =>
      intro st
      obtain ⟨hrow, hrows⟩ := List.forall_mem_cons.mp h
      rw [List.foldl_cons, ih hrows, side_replayRow hrow]
      by_cases hs : row.side = s
      · simp [rowsOn, hs, writes]
      · simp [rowsOn, hs]
  rw [rebuild, hloop]
  simp

theorem rowsOn_append (s : Side) (rows rows' : List LobLevelRow) :
    rowsOn s (rows ++ rows') = rowsOn s rows ++ rowsOn s rows' := by
  simp [rowsOn]

namespace Bitstamp

variable {cfg : Config} {filter filter' : Option LobFilter}

/-! ## The rows of a message -/

/-- The levels of a message for persistence, one side. -/
def persistedOn (msg : BitstampWsMessage) (s : Side) : List (String × String) :=
  (msg.lobLevels.filter fun l => l.1 = s).map fun l => (l.2.price, l.2.size)

/-- A level as `write_lob_level` writes it: zeros where a number cannot be read. -/
def writtenLevel (level : String × String) : F64 × F64 :=
  (parseLevel level).getD (F64.zero, F64.zero)

/-- The rows that a message adds. -/
def writtenRows (cfg : Config) (msg : BitstampWsMessage) : List LobLevelRow :=
  (persistMessage cfg { now := 0 } msg {}).lobLevels

/-- A message adds its rows at the end, whatever the clock says. -/
theorem lobLevels_persistMessage (cfg : Config) {stamp : Stamp} (hflush : stamp.flushOk = true)
    (msg : BitstampWsMessage) (w : World) :
    (persistMessage cfg stamp msg w).lobLevels = w.lobLevels ++ writtenRows cfg msg := by
  unfold writtenRows persistMessage
  cases msg.messageType with
  | l2Snapshot | l2Update =>
    dsimp only
    rw [World.persistLob_lobLevels hflush, World.persistLob_lobLevels rfl]
    rfl
  | trade =>
    cases tradeOf msg with
    | none => simp
    | some trade => simp [hflush]
  | event | unknown => simp

theorem action_of_mem_written {msg : BitstampWsMessage} {row : LobLevelRow}
    (h : row ∈ writtenRows cfg msg) : row.action = "update" := by
  unfold writtenRows persistMessage at h
  cases hm : msg.messageType with
  | l2Snapshot | l2Update =>
    simp only [hm] at h
    rw [World.persistLob_lobLevels rfl] at h
    obtain ⟨l, -, rfl⟩ := List.mem_map.mp (List.mem_append.mp h |>.resolve_left (by simp))
    rfl
  | trade =>
    simp only [hm] at h
    cases ht : tradeOf msg <;> simp [ht] at h
  | event | unknown => simp [hm] at h

theorem rowsOn_eq (s : Side) (rows : List LobLevelRow) :
    rowsOn s rows
      = ((rows.map LobLevelRow.level).filter fun l => l.1 = s).map Prod.snd := by
  rw [List.filter_map, List.map_map]
  rfl

/-- A message for the book writes its levels, any other message writes none. -/
theorem rowsOn_written (cfg : Config) (msg : BitstampWsMessage) (s : Side) :
    rowsOn s (writtenRows cfg msg)
      = if msg.forBook then (persistedOn msg s).map writtenLevel else [] := by
  have hrows : ∀ tsMs bestBid bestAsk,
      rowsOn s (World.persistLob cfg { now := 0 } tsMs "update"
        (msg.lobLevels.map fun l => (l.1,
          ({ price := l.2.price, size := l.2.size, count := "0", orders := "0" } : Okx.LobLevel)))
        bestBid bestAsk {}).lobLevels = (persistedOn msg s).map writtenLevel := by
    intro tsMs bestBid bestAsk
    rw [World.persistLob_lobLevels rfl, rowsOn_eq, List.nil_append, Okx.map_level_lobRows,
      List.map_map, List.filter_map, List.map_map, persistedOn, List.map_map]
    refine List.map_congr_left fun l _ => ?_
    simp only [Function.comp_apply, Okx.rowOf, Okx.LobLevel.asF64, writtenLevel, parseLevel]
    cases parseF64 l.2.price with
    | none => rfl
    | some price => cases parseF64 l.2.size <;> rfl
  unfold writtenRows persistMessage BitstampWsMessage.forBook
  cases msg.messageType with
  | l2Snapshot => exact hrows _ _ _
  | l2Update => exact hrows _ _ _
  | trade =>
    cases tradeOf msg with
    | none => rfl
    | some trade => simp [rowsOn]
  | event | unknown => rfl

/-- Size 0 at price 0 removes price 0. -/
theorem write_zeros {s : Side} {m : Levels s} (h : F64.zero ∉ m) :
    write m (writeOf (F64.zero, F64.zero)) = m := by
  apply Std.ExtTreeMap.ext_getElem?
  intro q
  rw [getElem?_write]
  by_cases hq : F64.zero = q
  · subst hq
    simpa [writeOf] using h
  · simp [writeOf, hq]

/-- A level that cannot be read changes nothing as long as nothing is held at price 0. -/
theorem replay_writtenLevel {s : Side} {m : Levels s} {levels : List (String × String)}
    (h : (∀ l ∈ levels, (parseLevel l).isSome) ∨
      F64.zero ∉ m ∧ ∀ e ∈ levels.filterMap parseLevel, e.1 ≠ F64.zero) :
    replay m (writes (levels.map writtenLevel))
      = replay m (writes (levels.filterMap parseLevel)) := by
  induction levels generalizing m with
  | nil => rfl
  | cons l levels ih =>
    rw [List.map_cons, writes, List.map_cons, replay_cons, writtenLevel]
    cases hl : parseLevel l with
    | some e =>
      rw [List.filterMap_cons_some hl, writes, List.map_cons, replay_cons]
      apply ih
      rcases h with hall | ⟨hm, hstores⟩
      · exact Or.inl fun l' hl' => hall l' (List.mem_cons_of_mem _ hl')
      · rw [List.filterMap_cons_some hl] at hstores
        obtain ⟨he, hrest⟩ := List.forall_mem_cons.mp hstores
        refine Or.inr ⟨?_, hrest⟩
        intro hmem
        rw [Std.ExtTreeMap.mem_iff_isSome_getElem?, Option.getD_some, getElem?_write,
          if_neg (show (writeOf e).1 ≠ F64.zero from he)] at hmem
        exact hm (Std.ExtTreeMap.mem_iff_isSome_getElem?.mpr hmem)
    | none =>
      rcases h with hall | ⟨hm, hstores⟩
      · have hsome := hall l List.mem_cons_self
        rw [hl] at hsome
        exact absurd hsome (by simp)
      · rw [List.filterMap_cons_none hl] at hstores ⊢
        rw [Option.getD_none, write_zeros hm]
        exact ih (Or.inr ⟨hm, hstores⟩)

/-! ## The rows of a run -/

/-- The sender takes the rows of the event. -/
def flushes : ConnEvent client → Bool
  | .poll stamp => stamp.flushOk
  | _ => true

/-- Before the answer a message adds no rows. -/
theorem lobLevels_reportMessage_buffering {stamp : Stamp} {msg : BitstampWsMessage}
    {before after : Session} {w : World} (h : before.snapshotApplied = false) :
    (reportMessage cfg stamp msg before after w).lobLevels = w.lobLevels := by
  simp only [reportMessage, h, Bool.not_false, if_true]
  cases hm : msg.messageType with
  | trade =>
    have hpersist : (persistIfSender cfg stamp msg (w.incTradesTotal cfg)).lobLevels
        = w.lobLevels := by
      unfold persistIfSender persistMessage
      simp only [hm]
      split
      · cases tradeOf msg with
        | none => rfl
        | some trade =>
          dsimp only
          split <;> simp
      · rfl
    cases (tradeOf msg).bind fun trade => parseF64 trade.price <;> simp [hpersist]
  | l2Update | event | unknown | l2Snapshot => rfl

theorem lobLevels_reportMessage_live (hsender : cfg.sender = true) {stamp : Stamp}
    (hflush : stamp.flushOk = true) {msg : BitstampWsMessage} {before after : Session} {w : World}
    (h : before.snapshotApplied = true) :
    (reportMessage cfg stamp msg before after w).lobLevels
      = w.lobLevels ++ writtenRows cfg msg := by
  simp only [reportMessage, h, Bool.not_true, Bool.false_eq_true, if_false, persistIfSender,
    hsender, if_true, lobLevels_persistMessage cfg hflush]
  cases msg.messageType with
  | l2Snapshot | l2Update => simp
  | trade => cases tradeOf msg <;> simp
  | event | unknown => rfl

variable (filter) in
/-- A session grows the table by the rows of the messages that it reads after the answer. -/
theorem lobLevels_step (hsender : cfg.sender = true) {e : ConnEvent client}
    (hflush : flushes e = true) (st : Conn client × World) :
    (Conn.step cfg filter st e).2.lobLevels = st.2.lobLevels
      ++ if st.1.session.snapshotApplied then (st.1.reads e).toList.flatMap (writtenRows cfg)
        else [] := by
  have heffect : Conn.Effect cfg filter st.1 st.2 e (Conn.step cfg filter st e) :=
    Conn.step_effect st e
  generalize Conn.step cfg filter st e = st' at heffect ⊢
  cases heffect with
  | quiet hreads _ _ _ => simp [hreads]
  | @message stamp msg conn' hreads _ _ =>
    rw [hreads]
    cases hlive : st.1.session.snapshotApplied with
    | false => simpa using lobLevels_reportMessage_buffering hlive
    | true => simpa using lobLevels_reportMessage_live hsender hflush hlive
  | @answer stamp a conn' htakes _ _ =>
    rw [takes_eq_some htakes]
    show (reportAnswer cfg stamp a _ _).lobLevels = _
    cases a with
    | ok snapshot => simp [reportAnswer]
    | badJson | failed => simp [reportAnswer]

/-! ## The session without its filter -/

/-- A session but for its book. -/
def Session.unbooked (self : Session) : Session := { self with orderBook := OrderBook.new }

theorem Session.unbooked_onMessage (filter filter' : Option LobFilter) (msg : BitstampWsMessage)
    (self : Session) :
    (self.onMessage filter msg).unbooked = (self.unbooked.onMessage filter' msg).unbooked := by
  obtain ⟨book, buffer, confirmed, attempted, live, applied⟩ := self
  cases live with
  | false =>
    cases hm : msg.messageType with
    | event =>
      by_cases hev : msg.event = some "bts:subscription_succeeded"
      · cases attempted <;> simp [onMessage, unbooked, hm, hev]
      · cases confirmed <;> cases attempted <;> simp [onMessage, unbooked, hm, hev]
    | l2Update | trade | unknown | l2Snapshot =>
      cases confirmed <;> cases attempted <;> simp [onMessage, unbooked, hm]
  | true => cases hm : msg.messageType <;> simp [onMessage, unbooked, apply, hm]

theorem Session.unbooked_onAnswer (filter filter' : Option LobFilter) (a : RestAnswer)
    (self : Session) :
    (self.onAnswer cfg filter a).unbooked = (self.unbooked.onAnswer cfg filter' a).unbooked := by
  cases a with
  | ok snapshot => rw [onAnswer_ok, onAnswer_ok]; rfl
  | badJson | failed => rfl

/-- Two connections that differ in the levels of their books at most, and what they report. -/
structure Alike (st st' : Conn client × World) : Prop where
  socket : st'.1.socket = st.1.socket
  ending : st'.1.ending = st.1.ending
  session : st'.1.session.unbooked = st.1.session.unbooked
  rows : st'.2.lobLevels = st.2.lobLevels

namespace Alike

variable {st st' : Conn client × World}

theorem awaiting (h : Alike st st') : st'.1.session.awaiting = st.1.session.awaiting :=
  (congrArg Session.awaiting h.session :)

theorem snapshotApplied (h : Alike st st') :
    st'.1.session.snapshotApplied = st.1.session.snapshotApplied :=
  (congrArg Session.snapshotApplied h.session :)

theorem applied (h : Alike st st') : st'.1.session.applied = st.1.session.applied :=
  (congrArg Session.applied h.session :)

theorem ready (h : Alike st st') : st'.1.ready = st.1.ready := by
  unfold Conn.ready
  rw [h.ending]
  exact congrArg _ (congrArg _ h.awaiting)

theorem reads (h : Alike st st') (e : ConnEvent client) : st'.1.reads e = st.1.reads e := by
  cases e with
  | poll stamp => rw [Conn.reads, Conn.reads, h.ready, h.socket]
  | arrive item => rfl
  | answer stamp a => rfl

/-- The two run in lockstep. -/
theorem step (hsender : cfg.sender = true) {e : ConnEvent client} (hflush : flushes e = true)
    (h : Alike st st') :
    Alike (Conn.step cfg filter st e) (Conn.step cfg filter' st' e) := by
  have hrows : (Conn.step cfg filter' st' e).2.lobLevels
      = (Conn.step cfg filter st e).2.lobLevels := by
    rw [lobLevels_step _ hsender hflush, lobLevels_step _ hsender hflush, h.rows, h.snapshotApplied,
      h.reads e]
  have hready := h.ready
  have hawait := h.awaiting
  obtain ⟨⟨session, socket, ending, received⟩, w⟩ := st
  obtain ⟨⟨session', socket', ending', received'⟩, w'⟩ := st'
  obtain ⟨hsocket, hending, hsession, hsame⟩ := h
  dsimp only at hsocket hending hsession
  subst hsocket hending
  cases e with
  | arrive item => exact ⟨rfl, rfl, hsession, hrows⟩
  | answer stamp a =>
    have hanswer : (Session.onAnswer cfg filter' a session').unbooked
        = (Session.onAnswer cfg filter a session).unbooked := by
      rw [Session.unbooked_onAnswer filter' none, hsession, ← Session.unbooked_onAnswer]
    simp only [Conn.step, hawait] at hrows ⊢
    split
    · rename_i htakes
      simp only [htakes, if_true] at hrows
      exact ⟨rfl, rfl, hanswer, hrows⟩
    · rename_i htakes
      exact ⟨rfl, rfl, hsession, hsame⟩
  | poll stamp =>
    simp only [Conn.step, hready] at hrows ⊢
    split
    · rename_i item rest hr
      simp only [hr] at hrows
      cases item with
      | text raw parsed =>
        cases parsed with
        | some msg =>
          refine ⟨rfl, rfl, ?_, hrows⟩
          show (Session.onMessage filter' msg session').unbooked = _
          rw [Session.unbooked_onMessage filter' none, hsession, ← Session.unbooked_onMessage]
          rfl
        | none =>
          simp only [Conn.handle]
          split
          · exact ⟨rfl, rfl, hsession, hsame⟩
          · exact ⟨rfl, rfl, hsession, hsame⟩
      | done | error | close | ping | pong | binary | frame => exact ⟨rfl, rfl, hsession, hsame⟩
    · exact ⟨rfl, rfl, hsession, hsame⟩

end Alike

/-! ## The book of the rows -/

def Applied.isSnapshot : Applied → Bool
  | .snapshot _ => true
  | .message _ => false

/-- A snapshot has been applied. -/
def Session.obtained (self : Session) : Bool := self.applied.any Applied.isSnapshot

/-- Nothing is left of a snapshot and the messages replayed after it: there is no single order
among them, and the last size for every price is zero. -/
def LeavesNothing (cfg : Config) (msgs : List BitstampWsMessage) : Prop :=
  (∀ msg ∈ msgs, (orderOf msg).bind OrderBook.place = none) ∧
    ∀ s, ∀ e ∈ (Exchange.bitstamp cfg.snapshotDepth).history msgs s,
      lastSize ((Exchange.bitstamp cfg.snapshotDepth).history msgs s) e.1 = some F64.zero

/-- The rows of a live message do to a book what the message does: it is no snapshot and no single
order, its readable levels are the ones that count, and where a level cannot be read, nothing is
held or stored at price 0. -/
def WritesWhatCounts (cfg : Config) (b : Cryptomeria.OrderBook) (msg : BitstampWsMessage) : Prop :=
  kindOf msg ≠ .snapshot ∧ kindOf msg ≠ .order ∧ ∀ s,
    (persistedOn msg s).filterMap parseLevel
        = (Exchange.bitstamp cfg.snapshotDepth).counted msg s ∧
      ((∀ l ∈ persistedOn msg s, (parseLevel l).isSome) ∨
        F64.zero ∉ b.side s ∧ ∀ e ∈ (persistedOn msg s).filterMap parseLevel, e.1 ≠ F64.zero)

/-- The snapshot of an answer. -/
def RestAnswer.snapshot : RestAnswer → Option OrderBookData
  | .ok snapshot => some snapshot
  | .badJson | .failed => none

/-- The condition on an event: a snapshot leaves nothing, and a live message writes what counts. -/
def NothingMissing (cfg : Config) (st : Conn client × World) (e : ConnEvent client) : Prop :=
  (∀ snapshot ∈ (st.1.takes e).bind RestAnswer.snapshot,
    LeavesNothing cfg (Session.snapshotMsg cfg snapshot :: st.1.session.kept snapshot)) ∧
  ∀ msg ∈ st.1.reads e, msg.forBook = true → st.1.session.obtained = true →
    WritesWhatCounts cfg st.1.session.orderBook.toOrderBook msg

instance (cfg : Config) (msgs : List BitstampWsMessage) : Decidable (LeavesNothing cfg msgs) :=
  inferInstanceAs (Decidable (_ ∧ _))

instance (cfg : Config) (b : Cryptomeria.OrderBook) (msg : BitstampWsMessage) :
    Decidable (WritesWhatCounts cfg b msg) :=
  inferInstanceAs (Decidable (_ ∧ _ ∧ _))

instance (cfg : Config) (st : Conn client × World) (e : ConnEvent client) :
    Decidable (NothingMissing cfg st e) :=
  inferInstanceAs (Decidable (_ ∧ _))

/-- These rows give the book of the session, from the snapshot on. -/
structure RowsGive (cfg : Config) (session : Session) (rows : List LobLevelRow) : Prop where
  action : ∀ row ∈ rows, row.action = "update"
  depth : session.orderBook.snapshotDepth = cfg.snapshotDepth
  unstarted : session.snapshotApplied = false → rows = [] ∧ session.applied = [] ∧
    session.orderBook = OrderBook.withSnapshotDepth cfg.snapshotDepth
  levels : session.obtained = true → ∀ s,
    replay ∅ (writes (rowsOn s rows)) = session.orderBook.toOrderBook.side s

/-- The history of messages that leave nothing has no last size but zero. -/
theorem LeavesNothing.last {msgs : List BitstampWsMessage} (h : LeavesNothing cfg msgs) {s : Side}
    {q size : F64}
    (hlast : lastSize ((Exchange.bitstamp cfg.snapshotDepth).history msgs s) q = some size) :
    size = F64.zero := by
  obtain ⟨e, he, rfl⟩ := Option.map_eq_some_iff.mp hlast
  obtain ⟨hmem, hq⟩ := List.mem_filter.mp (List.mem_of_getLast? he)
  have hzero := h.2 s e hmem
  rw [of_decide_eq_true hq, hlast] at hzero
  exact Option.some.inj hzero

/-- A book made of messages that leave nothing is empty. -/
theorem LeavesNothing.side {msgs : List BitstampWsMessage} (h : LeavesNothing cfg msgs)
    (s : Side) :
    (msgs.foldl (fun b msg => OrderBook.processMsg msg none b)
      (OrderBook.withSnapshotDepth cfg.snapshotDepth)).toOrderBook.side s = ∅ := by
  have hbook : (msgs.foldl (fun b msg => (Bitstamp.model cfg.snapshotDepth).processMsg msg none b)
      (Bitstamp.model cfg.snapshotDepth).new).1
        = msgs.foldl (fun b msg => OrderBook.processMsg msg none b)
          (OrderBook.withSnapshotDepth cfg.snapshotDepth) :=
    (List.foldl_hom Subtype.val (fun _ _ => rfl)).symm
  have hfollows := Exchange.follows_run (x := .bitstamp cfg.snapshotDepth) msgs
  apply Std.ExtTreeMap.ext_getElem?
  intro q
  have huntouched : (Exchange.bitstamp cfg.snapshotDepth).Untouched msgs s q := by
    intro msg hmsg
    have hnone : (Exchange.bitstamp cfg.snapshotDepth).ordered msg = none :=
      h.1 msg ((Trace.sinceLast_suffix _ _).subset hmsg)
    rw [hnone]
    simp
  rw [← hbook]
  refine (hfollows.levels s q huntouched).trans ?_
  rw [Std.ExtTreeMap.getElem?_empty, Option.eq_none_iff_forall_ne_some]
  intro size hsize
  obtain ⟨hlast, hpos⟩ := getElem?_replay_writes.mp hsize
  exact hpos (h.last hlast)

/-- A live message does the same to the book and to the rows. -/
theorem replay_written {b : OrderBook} {msg : BitstampWsMessage}
    (hdepth : b.snapshotDepth = cfg.snapshotDepth) (h : WritesWhatCounts cfg b.toOrderBook msg)
    (s : Side) :
    replay (b.toOrderBook.side s) (writes ((persistedOn msg s).map writtenLevel))
      = (OrderBook.processMsg msg none b).toOrderBook.side s := by
  obtain ⟨hsnapshot, horder, hlevels⟩ := h
  obtain ⟨hcounted, hzeros⟩ := hlevels s
  have hreset := Exchange.resets_eq_false (x := .bitstamp cfg.snapshotDepth) hsnapshot s
  have hstep := Exchange.side_step (x := .bitstamp cfg.snapshotDepth) horder ⟨b, hdepth⟩ s
  rw [hreset, if_neg Bool.false_ne_true, ← hcounted] at hstep
  rw [replay_writtenLevel hzeros]
  exact hstep.symm

theorem snapshotDepth_foldl (msgs : List BitstampWsMessage) (b : OrderBook) :
    (msgs.foldl (fun b msg => OrderBook.processMsg msg none b) b).snapshotDepth
      = b.snapshotDepth := by
  induction msgs generalizing b with
  | nil => rfl
  | cons msg msgs ih => rw [List.foldl_cons, ih, OrderBook.snapshotDepth_processMsg]

namespace RowsGive

variable {session : Session} {rows : List LobLevelRow}

theorem new (cfg : Config) : RowsGive cfg (Session.new cfg) [] := by
  refine ⟨by simp, rfl, fun _ => ⟨rfl, rfl, rfl⟩, ?_⟩
  intro hobtained
  exact absurd hobtained (by simp [Session.obtained, Session.new])

/-- Before the answer nothing is written and nothing is applied. -/
theorem buffer (h : RowsGive cfg session rows) (hlive : session.snapshotApplied = false)
    (msg : BitstampWsMessage) : RowsGive cfg (session.onMessage none msg) rows := by
  obtain ⟨-, hbook, happlied, -⟩ := Session.onMessage_buffering hlive none msg
  obtain ⟨hnil, hnone, hnew⟩ := h.unstarted hlive
  refine ⟨h.action, ?_, ?_, ?_⟩
  · rw [hbook, h.depth]
  · intro _
    rw [hbook, happlied]
    exact ⟨hnil, hnone, hnew⟩
  · intro hobtained
    rw [Session.obtained, happlied, hnone] at hobtained
    exact absurd hobtained (by simp)

/-- A live message that writes what counts keeps the relation. -/
theorem live (h : RowsGive cfg session rows) (hlive : session.snapshotApplied = true)
    {msg : BitstampWsMessage} (hC : msg.forBook = true → session.obtained = true →
      WritesWhatCounts cfg session.orderBook.toOrderBook msg) :
    RowsGive cfg (session.onMessage none msg) (rows ++ writtenRows cfg msg) := by
  have haction : ∀ row ∈ rows ++ writtenRows cfg msg, row.action = "update" := by
    intro row hrow
    rcases List.mem_append.mp hrow with hrow | hrow
    · exact h.action row hrow
    · exact action_of_mem_written hrow
  rw [Session.onMessage_live hlive]
  cases hbook : msg.forBook with
  | false =>
    rw [if_neg Bool.false_ne_true]
    refine ⟨haction, h.depth, ?_, ?_⟩
    · intro hno
      rw [hlive] at hno
      exact absurd hno (by simp)
    · intro hobtained s
      rw [rowsOn_append, rowsOn_written, hbook, ← h.levels hobtained s]
      simp
  | true =>
    rw [if_pos rfl]
    refine ⟨haction, ?_, ?_, ?_⟩
    · exact (OrderBook.snapshotDepth_processMsg msg none _).trans h.depth
    · intro hno
      exact absurd (hlive.symm.trans hno) (by simp)
    · intro hafter s
      have hobtained : session.obtained = true := by
        simpa [Session.obtained, Session.apply, Applied.isSnapshot] using hafter
      have happend : writes (rowsOn s (rows ++ writtenRows cfg msg))
          = writes (rowsOn s rows) ++ writes ((persistedOn msg s).map writtenLevel) := by
        rw [rowsOn_append, rowsOn_written, hbook, if_pos rfl, writes, List.map_append]
        rfl
      rw [happend, replay_append, h.levels hobtained s]
      exact replay_written h.depth (hC hbook hobtained) s

/-- The answer keeps the relation where it leaves nothing. -/
theorem answer (h : RowsGive cfg session rows) (hlive : session.snapshotApplied = false)
    {a : RestAnswer} (hC : ∀ snapshot, a = .ok snapshot →
      LeavesNothing cfg (Session.snapshotMsg cfg snapshot :: session.kept snapshot)) :
    RowsGive cfg (session.onAnswer cfg none a) rows := by
  obtain ⟨rfl, hnone, hnew⟩ := h.unstarted hlive
  cases a with
  | ok snapshot =>
    have hside := (hC snapshot rfl).side
    rw [List.foldl_cons, ← hnew] at hside
    rw [Session.onAnswer_ok]
    refine ⟨h.action, ?_, ?_, ?_⟩
    · exact (snapshotDepth_foldl _ _).trans
        ((OrderBook.snapshotDepth_processMsg _ none _).trans h.depth)
    · intro hno
      exact absurd hno (by simp)
    · intro _ s
      rw [hside s]
      rfl
  | badJson | failed =>
    refine ⟨h.action, h.depth, ?_, h.levels⟩
    intro hno
    exact absurd hno (by simp [Session.onAnswer])

end RowsGive

/-! ## Runs -/

/-- A session with its filter, and beside it the same session without one. -/
def twinStep (cfg : Config) (filter : Option LobFilter)
    (st : (Conn client × World) × (Conn client × World)) (e : ConnEvent client) :
    (Conn client × World) × (Conn client × World) :=
  (Conn.step cfg filter st.1 e, Conn.step cfg none st.2 e)

/-- From the snapshot on, the rows that were written since `w` rebuild the book that is maintained
without a filter. -/
def RowsRebuild (w : World) (st : (Conn client × World) × (Conn client × World)) : Prop :=
  st.1.1.session.obtained = true → ∀ s,
    (rebuild (st.1.2.lobLevels.drop w.lobLevels.length)).side s
      = st.2.1.session.orderBook.toOrderBook.side s

theorem rowsGive_step {w : World} {st : Conn client × World} {rows : List LobLevelRow}
    (hsender : cfg.sender = true) {e : ConnEvent client} (hflush : flushes e = true)
    (hlobLevels : st.2.lobLevels = w.lobLevels ++ rows) (h : RowsGive cfg st.1.session rows)
    (hC : NothingMissing cfg st e) :
    ∃ rows', (Conn.step cfg none st e).2.lobLevels = w.lobLevels ++ rows' ∧
      RowsGive cfg (Conn.step cfg none st e).1.session rows' := by
  obtain ⟨hanswers, hlive⟩ := hC
  have hrows := lobLevels_step none hsender hflush st
  have heffect : Conn.Effect cfg none st.1 st.2 e (Conn.step cfg none st e) :=
    Conn.step_effect st e
  generalize Conn.step cfg none st e = st' at heffect hrows ⊢
  cases heffect with
  | quiet _ _ hsession _ => exact ⟨rows, hlobLevels, hsession.symm ▸ h⟩
  | @message stamp msg conn' hreads hsession _ =>
    replace hsession : conn'.session = Session.onMessage none msg st.1.session := hsession
    cases happlied : st.1.session.snapshotApplied with
    | false =>
      refine ⟨rows, hrows.trans (by simp [happlied, hlobLevels]), ?_⟩
      rw [hsession]
      exact h.buffer happlied msg
    | true =>
      refine ⟨rows ++ writtenRows cfg msg, hrows.trans (by simp [happlied, hreads, hlobLevels]), ?_⟩
      rw [hsession]
      exact h.live happlied (hlive msg hreads)
  | @answer stamp a conn' htakes hsession _ =>
    have happlied := takes_eq_some htakes
    refine ⟨rows, hrows.trans (by simp [happlied, hlobLevels]), ?_⟩
    replace hsession : conn'.session = Session.onAnswer cfg none a st.1.session := hsession
    rw [hsession]
    apply h.answer happlied
    intro snapshot ha
    apply hanswers snapshot
    rw [htakes, ha]
    rfl

/-- **When the persisted stream rebuilds the book.** In every session with a working sender whose
events all meet the condition (the snapshot and the diffs replayed after it leave no level, and
every live message writes what counts), the rows written during the session, replayed from an
empty book, give at every point after the snapshot the book of the session without a filter. -/
theorem persisted_rebuild (cfg : Config) (hsender : cfg.sender = true) (filter : Option LobFilter)
    (w : World) (es : List (ConnEvent client)) (hflush : ∀ e ∈ es, flushes e = true)
    (hC : Trace.EachStep (twinStep cfg filter) (fun st => NothingMissing cfg st.2)
      ((Conn.new client cfg, w), (Conn.new client cfg, w)) es) :
    Trace.Always (twinStep cfg filter) (RowsRebuild w)
      ((Conn.new client cfg, w), (Conn.new client cfg, w)) es := by
  have hrun : Trace.Always (twinStep cfg filter)
      (fun st => Alike st.1 st.2 ∧ ∃ rows, st.2.2.lobLevels = w.lobLevels ++ rows ∧
        RowsGive cfg st.2.1.session rows)
      ((Conn.new client cfg, w), (Conn.new client cfg, w)) es := by
    have hstart : ∃ rows, w.lobLevels = w.lobLevels ++ rows ∧ RowsGive cfg (Session.new cfg) rows :=
      ⟨[], by simp, RowsGive.new cfg⟩
    refine Trace.always_of_eachStep ⟨⟨rfl, rfl, rfl, rfl⟩, hstart⟩ hflush hC ?_
    rintro st e ⟨halike, rows, hlobLevels, hrows⟩ he hmissing
    exact ⟨halike.step hsender he, rowsGive_step hsender he hlobLevels hrows hmissing⟩
  refine hrun.mono ?_
  rintro st ⟨halike, rows, hlobLevels, hrows⟩ hobtained s
  rw [← halike.rows, hlobLevels, List.drop_left, side_rebuild hrows.action s]
  apply hrows.levels
  rw [Session.obtained, halike.applied]
  exact hobtained

def recordedConfig : Config := { bitstampConfig with sender := true }

/-- A diff with these bids comes in before the subscription is confirmed, the snapshot has a bid at
100, and a diff is read after it. -/
def recordedRun (buffered : List (String × String)) : List (ConnEvent client) :=
  [.arrive (.text "" (some (diffMsg "15" buffered []))), .poll { now := 0 },
    .arrive (.text "" (some subscribedMsg)), .poll { now := 0 },
    .answer { now := 0 } (.ok { bids := [("100", "2")], microtimestamp := "10" }),
    .arrive (.text "" (some (diffMsg "20" [("99", "1"), ("98", "0")] []))), .poll { now := 0 }]

/-- The buffered diff takes the bid of the snapshot out. -/
theorem persisted_rebuild_recordedRun :
    RowsRebuild {} ((recordedRun [("100", "0")]).foldl (twinStep recordedConfig none)
      ((Conn.new client recordedConfig, {}), (Conn.new client recordedConfig, {}))) := by
  refine (persisted_rebuild recordedConfig rfl none {} (recordedRun [("100", "0")])
    (by decide +kernel) ?_).last
  simp only [recordedRun, Trace.eachStep_cons, Trace.eachStep_nil, and_true]
  decide +kernel

/-- A bid of the snapshot is in the book and in no row. -/
theorem snapshot_not_persisted :
    ¬ ∀ (cfg : Config), cfg.sender = true → ∀ (filter : Option LobFilter) (w : World)
      (es : List (ConnEvent client)), (∀ e ∈ es, flushes e = true) →
      Trace.Always (twinStep cfg filter) (RowsRebuild w)
        ((Conn.new client cfg, w), (Conn.new client cfg, w)) es := by
  intro h
  have hbids := (h recordedConfig rfl none {} (recordedRun []) (by decide +kernel)).last
    (by decide +kernel) .bid
  have hlevel := congrArg (fun m : Levels .bid => m[F64.fin 100]?) hbids
  exact absurd hlevel (by decide +kernel)

end Bitstamp

end Cryptomeria
