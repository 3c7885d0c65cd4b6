import Cryptomeria.Client.Journal
import Cryptomeria.Client.Timestamps
import Cryptomeria.Filter.Subset
import Cryptomeria.Lib.Grouping
import Cryptomeria.Python.Replay

/-!
# From the socket to the replayed book

An OKX client with a database records every level of its book messages, over all its connections,
and holds a filtered book of the current one. The export of the table to parquet is not part of the
repository: its file is taken to have the rows of the table in the columns of the reader. Then what
the reader yields last has every level that the client holds, with its size (`held_in_replay`).
-/

set_option autoImplicit false

namespace Cryptomeria
namespace Python

open WriteLog Okx

/-! ## The table -/

/-- A row of `lob_levels` in the columns of the reader, with its time in milliseconds. -/
def columns (row : LobLevelRow) : Row :=
  levelRow (row.timestamp / 10 ^ 6).toNat (some row.action) row.level

/-- The client gives the message to its book. -/
def isBook (msg : OkxWsMessage) : Bool :=
  match msg.messageType with
  | .l2Snapshot | .l2Update | .l2 => true
  | .trade | .event | .unknown => false

/-- The book messages that a run reads, over all its connections. -/
def bookMessages (cfg : Config) (es : List (Event Okx.client)) : List OkxWsMessage :=
  (((Client.start Okx.client cfg {}).handled cfg es).map Handled.msg).filter isBook

/-- Those of the current connection. -/
def currentMessages (cfg : Config) (es : List (Event Okx.client)) : List OkxWsMessage :=
  (Client.run Okx.client cfg {} es).conn.received.filter isBook

theorem columns_levelRows (cfg : Config) {msg : OkxWsMessage} {action : String}
    (haction : msg.action = some action) (hdated : tsOf msg ≤ lastMs) :
    (World.levelRows cfg (tsOf msg) action msg.lobLevels (takenForBest msg)).map columns
      = rowsOf msg := by
  have htime : (timestampNanos (tsOf msg) / 10 ^ 6).toNat = tsOf msg := by
    rw [timestampNanos_eq_iff.mpr hdated]
    omega
  rw [World.levelRows, lobRows, List.map_map, rowsOf, haction]
  refine List.map_congr_left fun l _ => ?_
  obtain ⟨s, level⟩ := l
  simp only [Function.comp_apply, columns, writeLobLevel, LobLevelRow.level, htime, rowOf]
  cases level.asF64 <;> rfl

/-- The rows of a book message are those that the reader looks for. -/
theorem columns_lobRows (cfg : Config) {msg : OkxWsMessage} (hmsg : BooksMessage msg)
    (hdated : tsOf msg ≤ lastMs) : (Okx.lobRows cfg msg).map columns = rowsOf msg := by
  unfold Okx.lobRows
  rcases hmsg.messageType with hm | hm
  · rw [hm]
    exact columns_levelRows cfg (action_of_messageType.1 hm) hdated
  · rw [hm]
    exact columns_levelRows cfg (action_of_messageType.2 hm) hdated

theorem lobRows_of_not_isBook (cfg : Config) {msg : OkxWsMessage} (h : isBook msg = false) :
    Okx.lobRows cfg msg = [] := by
  unfold isBook at h
  unfold Okx.lobRows
  cases hm : msg.messageType with
  | l2Snapshot | l2Update | l2 => simp [hm] at h
  | trade | event | unknown => rfl

/-- A run whose rows can be replayed. Every flush succeeds, and the book messages are what OKX
sends: they have an action and numeric levels, a price comes once a side, time does not go back. A
snapshot meets the condition of the replay, and the current connection begins with one that lists
both sides. -/
structure Replayable (cfg : Config) (es : List (Event Okx.client)) : Prop where
  sender : cfg.sender = true
  flushed : ∀ h ∈ (Client.start Okx.client cfg {}).handled cfg es, h.stamp.flushOk = true
  books : ∀ msg ∈ bookMessages cfg es, BooksMessage msg
  nodup : ∀ msg ∈ bookMessages cfg es, ∀ s, ((listed msg s).map Prod.fst).Nodup
  dated : ∀ msg ∈ bookMessages cfg es, tsOf msg ≤ lastMs
  sorted : (bookMessages cfg es).Pairwise fun msg msg' => tsOf msg ≤ tsOf msg'
  alike : Trace.EachStep Trace.remember Alike [] (bookMessages cfg es)
  opened : ∀ msg ∈ (currentMessages cfg es).head?, isSnapshot msg = true ∧ ∀ s, listed msg s ≠ []

variable {cfg : Config} {es : List (Event Okx.client)}

theorem Replayable.alike_prefix (h : Replayable cfg es) {pre : List OkxWsMessage}
    {msg : OkxWsMessage} (hpre : pre ++ [msg] <+: bookMessages cfg es) : Alike pre msg := by
  have hnow := h.alike pre msg hpre
  rwa [Trace.foldl_remember, List.nil_append] at hnow

/-- The table is the rows of the book messages, one message after the other. -/
theorem Replayable.columns_table (h : Replayable cfg es) :
    (Client.run Okx.client cfg {} es).world.lobLevels.map columns
      = (bookMessages cfg es).flatMap rowsOf := by
  have htable : (Client.run Okx.client cfg {} es).world.lobLevels
      = ((Client.start Okx.client cfg {}).handled cfg es).flatMap (Okx.journal.lobOf cfg) :=
    (Okx.journal.adds_run (Client.start Okx.client cfg {}) es).lobLevels
  have hkept : ((Client.start Okx.client cfg {}).handled cfg es).flatMap (Okx.journal.lobOf cfg)
      = (((Client.start Okx.client cfg {}).handled cfg es).map Handled.msg).flatMap
          (Okx.lobRows cfg) := by
    refine Eq.trans (List.flatMap_congr fun x hx => ?_) (List.flatMap_map _ _ _).symm
    rw [ClientSpec.Journal.lobOf, Handled.flushed, h.sender, h.flushed x hx]
    rfl
  have hbook : (((Client.start Okx.client cfg {}).handled cfg es).map Handled.msg).flatMap
      (Okx.lobRows cfg) = (bookMessages cfg es).flatMap (Okx.lobRows cfg) :=
    (Grouping.flatMap_filter fun _ => lobRows_of_not_isBook cfg).symm
  rw [htable, hkept, hbook, List.map_flatMap]
  exact List.flatMap_congr fun msg hmsg => columns_lobRows cfg (h.books msg hmsg) (h.dated msg hmsg)

/-! ## The books -/

/-- The current connection has read the last of the book messages. -/
theorem currentMessages_suffix (cfg : Config) (es : List (Event Okx.client)) :
    currentMessages cfg es <:+ bookMessages cfg es :=
  (Client.received_suffix cfg {} es).filter isBook

theorem foldl_onMessage (filter : Option LobFilter) (msgs : List OkxWsMessage) (b : OrderBook) :
    msgs.foldl (fun b msg => onMessage filter msg b) b
      = (msgs.filter isBook).foldl (fun b msg => processMsg msg filter b) b := by
  induction msgs generalizing b with
  | nil => rfl
  | cons msg msgs ih =>
    rw [List.foldl_cons, ih, List.filter_cons, onMessage, isBook]
    cases msg.messageType <;> rfl

/-- The client's book is made of the messages of the current connection. -/
theorem session_eq_foldl (cfg : Config) (es : List (Event Okx.client)) :
    (Client.run Okx.client cfg {} es).conn.session
      = (currentMessages cfg es).foldl (fun b msg => processMsg msg cfg.lobFilter b)
          OrderBook.new := by
  have hanswer : ∀ (a : Empty) (b : OrderBook),
      Okx.client.onAnswer cfg cfg.lobFilter a b = b := fun a _ => a.elim
  rw [Client.session_eq hanswer]
  exact foldl_onMessage cfg.lobFilter _ _

/-- A message replaces the whole book. -/
theorem processMsg_of_lists_both {msg : OkxWsMessage} (hmsg : BooksMessage msg)
    (hsnapshot : isSnapshot msg = true) (hboth : ∀ s, listed msg s ≠ []) (b b' : OrderBook) :
    processMsg msg none b = processMsg msg none b' := by
  apply OrderBook.ext_side
  intro s
  rw [side_processMsg hmsg, side_processMsg hmsg, if_pos hsnapshot, if_pos hsnapshot, replaced,
    replaced, if_neg (hboth s), if_neg (hboth s)]

/-- What came before the current connection is replaced by its first snapshot. -/
theorem Replayable.bookAfter_eq (h : Replayable cfg es) (hne : currentMessages cfg es ≠ []) :
    bookAfter (bookMessages cfg es) = bookAfter (currentMessages cfg es) := by
  obtain ⟨before, hbefore⟩ := currentMessages_suffix cfg es
  obtain ⟨first, rest, hcurrent⟩ := List.exists_cons_of_ne_nil hne
  obtain ⟨hsnapshot, hboth⟩ := h.opened first (by rw [hcurrent]; rfl)
  have hmsg : BooksMessage first := by
    refine h.books first ?_
    rw [← hbefore, hcurrent]
    exact List.mem_append_right _ List.mem_cons_self
  rw [← hbefore, hcurrent, bookAfter, List.foldl_append, List.foldl_cons, bookAfter,
    List.foldl_cons]
  exact congrArg (rest.foldl _) (processMsg_of_lists_both hmsg hsnapshot hboth _ _)

theorem Replayable.wellFormed (h : Replayable cfg es) {msg : OkxWsMessage}
    (hmem : msg ∈ bookMessages cfg es) : Okx.model.WellFormed msg := by
  have hmsg := h.books msg hmem
  refine ⟨h.nodup msg hmem, ?_, fun _ => trivial, Lob.kindOf_ne_order⟩
  intro hkind s hblank
  have hlisted : listed msg s ≠ [] := by
    intro hnil
    rw [(blank_iff hmsg s).mpr hnil] at hblank
    cases hblank
  have hlists : lists msg = true := by
    by_contra hnone
    exact hlisted (lists_eq_false.mp (by simpa using hnone) s)
  have hsnapshot : isSnapshot msg = true := by
    by_contra hnone
    have hupdate := (kind_snapshot hmsg).2 (by simpa using hnone)
    have hkindEq : Okx.model.kind msg = _ := kind_eq hmsg.messageType
    rw [hkind, hupdate] at hkindEq
    split at hkindEq <;> simp at hkindEq
  -- a listed price has a positive last size, and the entry with that size is in the list
  obtain ⟨pre, post, hsplit⟩ := List.append_of_mem hmem
  have halike := h.alike_prefix ⟨post, by rw [hsplit, List.append_assoc]; rfl⟩
  obtain ⟨hpositive, -⟩ := halike.2 hsnapshot hlists s
  obtain ⟨e, he⟩ := List.exists_mem_of_ne_nil _ hlisted
  obtain ⟨a, ha, hgt⟩ := Option.any_eq_true _ _ |>.mp (hpositive e he)
  exact ⟨(e.1, a), mem_of_lastSize ha, hgt⟩

/-- The client's book is a part of the unfiltered book of its connection. -/
theorem Replayable.included (h : Replayable cfg es) {n : ℕ} (hfilter : cfg.maxLevel = some n)
    (s : Side) : Included ((Client.run Okx.client cfg {} es).conn.session.side s)
      ((bookAfter (currentMessages cfg es)).side s) := by
  have hwf : ∀ msg ∈ currentMessages cfg es, Okx.model.WellFormed msg :=
    fun msg hmem => h.wellFormed ((currentMessages_suffix cfg es).subset hmem)
  have hsubset := (@BookModel.always_subset_maxLevel Okx.model n _ hwf).last s
  have hboth : ∀ (msgs : List OkxWsMessage) (b b' : OrderBook),
      msgs.foldl (Okx.model.stepBoth (.maxLevel n)) (b, b')
        = (msgs.foldl (fun b msg => processMsg msg (some (.maxLevel n)) b) b,
            msgs.foldl (fun b msg => processMsg msg none b) b') := by
    intro msgs
    induction msgs with
    | nil => exact fun _ _ => rfl
    | cons msg msgs ih => exact fun b b' => ih _ _
  have hlob : cfg.lobFilter = some (.maxLevel n) := by rw [Config.lobFilter, hfilter]
  rw [session_eq_foldl, hlob, bookAfter]
  exact (congrArg (fun p : OrderBook × OrderBook => Included (p.1.side s) (p.2.side s))
    (hboth _ _ _)).mp hsubset

/-! ## What the reader yields last -/

/-- **What the client holds is in the replay.** Take a run of an OKX client with a database and
`--max-level`, over any number of connections, whose rows can be replayed, and a file that has the
rows of the table. Every level that the client holds at the end is in what the reader yields last,
with the same size. -/
theorem held_in_replay {n : ℕ} (h : Replayable cfg es) (hfilter : cfg.maxLevel = some n)
    (batches : List (List Row))
    (hfile : batches.flatten = (Client.run Okx.client cfg {} es).world.lobLevels.map columns)
    {s : Side} {price size : F64}
    (hheld : ((Client.run Okx.client cfg {} es).conn.session.side s)[price]? = some size) :
    ∃ y, (yields batches).contents.getLast? = some y ∧
      (y.2.side s).get? price = some (some size) := by
  have hin := h.included hfilter s price size hheld
  have hempty : ((bookAfter []).side s)[price]? ≠ some size := by
    cases s <;> simp [bookAfter, OrderBook.new, OrderBook.side]
  have hne : currentMessages cfg es ≠ [] := by
    intro hnil
    rw [hnil] at hin
    exact hempty hin
  rw [← h.bookAfter_eq hne] at hin
  obtain ⟨r, ys, hfold, hreplayed⟩ := replayed_run h.books h.sorted fun _ _ => h.alike_prefix
  have hcontents : (yields batches).contents = ys.contents ++ r.pending.toList := by
    rw [yields, readLobIter_flatten, hfile, h.columns_table, hfold,
      Reader.contents_finish hreplayed.wf]
  -- a book that is not empty has come from a message with levels, so the last run is pending
  have hpending : r.currentTs ≠ none := by
    intro hnone
    rw [hreplayed.currentTs, lastTs, Option.map_eq_none_iff, List.getLast?_eq_none_iff] at hnone
    rw [← bookAfter_filter h.books fun _ _ hlists => hlists, hnone] at hin
    exact hempty hin
  obtain ⟨ts, hts⟩ := Option.ne_none_iff_exists'.mp hpending
  refine ⟨(ts, r.book), ?_, ?_⟩
  · rw [hcontents, Reader.pending, hts]
    simp
  · rw [hreplayed.book s price, hin]
    rfl

/-- One level a side, and rows are written. -/
def oneLevel : Config := { okxConfig with maxLevel := some 1 }

/-- The client connects and subscribes. -/
def opening : List (Event Okx.client) :=
  [.connected { now := 0 }, .sent { now := 0 }, .sent { now := 0 }]

def exchangeSends (msg : OkxWsMessage) : List (Event Okx.client) :=
  [.link (.arrive (.text "" (some msg))), .link (.poll { now := 0 })]

/-- The connection is lost and the client sleeps. -/
def lost : List (Event Okx.client) :=
  [.link (.arrive .done), .link (.poll { now := 0 }), .woken false]

/-- A snapshot and an update, then a reconnect and the snapshot of the new connection. -/
def reconnectedRun : List (Event Okx.client) :=
  opening ++ (reconnected.take 2).flatMap exchangeSends ++ lost ++ opening
    ++ (reconnected.drop 2).flatMap exchangeSends

theorem handled_reconnectedRun :
    ((Client.start Okx.client oneLevel {}).handled oneLevel reconnectedRun).map
        (fun h => (h.stamp.flushOk, h.msg)) = reconnected.map fun msg => (true, msg) := rfl

theorem bookMessages_reconnectedRun : bookMessages oneLevel reconnectedRun = reconnected := rfl

theorem replayable_reconnectedRun : Replayable oneLevel reconnectedRun := by
  have hmsgs : (∀ msg ∈ reconnected, BooksMessage msg) ∧
      (∀ msg ∈ reconnected, ∀ s, ((listed msg s).map Prod.fst).Nodup) ∧
      (∀ msg ∈ reconnected, tsOf msg ≤ lastMs) ∧
      (reconnected.Pairwise fun msg msg' => tsOf msg ≤ tsOf msg') ∧
      ∀ msg ∈ (reconnected.drop 2).head?, isSnapshot msg = true ∧ ∀ s, listed msg s ≠ [] := by
    decide +kernel
  obtain ⟨hbooks, hnodup, hdated, hsorted, hopened⟩ := hmsgs
  have halike : Trace.EachStep Trace.remember Alike [] reconnected := by
    simp only [reconnected, Trace.eachStep_cons, Trace.eachStep_nil, and_true]
    decide +kernel
  rw [← bookMessages_reconnectedRun] at hbooks hnodup hdated hsorted halike
  refine ⟨rfl, ?_, hbooks, hnodup, hdated, hsorted, halike, hopened⟩
  intro h hmem
  have hpair := List.mem_map_of_mem hmem (f := fun h => (h.stamp.flushOk, h.msg))
  rw [handled_reconnectedRun] at hpair
  obtain ⟨msg, -, heq⟩ := List.mem_map.mp hpair
  exact (congrArg Prod.fst heq).symm

theorem held_in_replay_reconnectedRun :
    ∃ y, (yields [(Client.run Okx.client oneLevel {} reconnectedRun).world.lobLevels.map
        columns]).contents.getLast? = some y ∧
      (y.2.side .bid).get? (.fin 98) = some (some (.fin 1)) :=
  held_in_replay replayable_reconnectedRun rfl _ List.flatten_singleton (by decide +kernel)

end Python
end Cryptomeria
