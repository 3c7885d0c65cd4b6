import Cryptomeria.Bitstamp.Session
import Cryptomeria.Exchange

/-!
# The reconciliation converges

The server publishes a `Feed` of diffs and answers the REST request with the book after `m` of them.
A client that hears the diffs from some point before `m` on ends with the server's book
(`reconciliation_converges`), however the stream is cut between the buffer, the socket and the live
branch. Which diffs are applied a second time depends on the cut, and that they do no harm is
`replay_overlap`: diffs are absolute.
-/

set_option autoImplicit false

namespace Cryptomeria
namespace Bitstamp

open WriteLog

/-! ## What the server publishes -/

/-- A diff of the server: readable arrays, a microtimestamp, and absolute sizes, where zero takes
the price out. -/
structure Diff where
  msg : BitstampWsMessage
  ts : ℕ
  kind : kindOf msg = .update
  microtimestamp : msg.microtimestampUs = some ts
  absolute : ∀ s, ∀ e ∈ entries msg s, e.2.eq F64.zero = true ∨ e.2.gt F64.zero = true

/-- What diffs write to a side. -/
def diffWrites (ds : List Diff) (s : Side) : List (F64 × Option F64) :=
  writes (ds.flatMap fun d => entries d.msg s)

/-- The diffs of the server, oldest first, and the book before them. -/
structure Feed where
  base : Cryptomeria.OrderBook
  diffs : List Diff
  positive : ∀ s, ∀ p a : F64, (base.side s)[p]? = some a → a.gt F64.zero = true
  increasing : diffs.Pairwise fun d d' => d.ts < d'.ts

namespace Feed

/-- A side of the true book after `k` diffs. -/
def book (feed : Feed) (k : ℕ) (s : Side) : Levels s :=
  replay (feed.base.side s) (diffWrites (feed.diffs.take k) s)

/-- The answer lists the book after `m` diffs, and its microtimestamp lies between those of diff
`m` and of the next one. It is not longer than the client reads. -/
structure Answers (feed : Feed) (cfg : Config) (m : ℕ) (snapshot : OrderBookData) : Prop where
  lists : ∀ s, ∀ p a : F64, (p, a) ∈ (snapshot.side s).filterMap parseLevel ↔
    (feed.book m s)[p]? = some a
  depth : ∀ s, (snapshot.side s).length ≤ cfg.snapshotDepth
  notBefore : 0 < m → ∀ d ∈ feed.diffs[m - 1]?, d.ts ≤ Session.snapshotMicrotimestamp snapshot
  before : ∀ d ∈ feed.diffs[m]?, Session.snapshotMicrotimestamp snapshot < d.ts

/-- The book messages that have arrived are the diffs after the first `skipped`, in order and
without a gap, as far as they go. -/
def Delivers (feed : Feed) (skipped : ℕ) (es : List (ConnEvent client)) : Prop :=
  (es.filterMap ConnEvent.message).filter BitstampWsMessage.forBook
    <+: (feed.diffs.drop skipped).map Diff.msg

/-- The diffs after the first `i`, up to number `k`. -/
def between (feed : Feed) (i k : ℕ) : List Diff := (feed.diffs.take k).drop i

variable {feed : Feed} {cfg : Config} {i m k : ℕ} {snapshot : OrderBookData} {s : Side}

theorem diffWrites_append (ds ds' : List Diff) (s : Side) :
    diffWrites (ds ++ ds') s = diffWrites ds s ++ diffWrites ds' s := by
  simp [diffWrites, writes]

theorem take_append_between (feed : Feed) (h : i ≤ k) :
    feed.diffs.take i ++ feed.between i k = feed.diffs.take k := by
  have htake : (feed.diffs.take k).take i = feed.diffs.take i := by
    rw [List.take_take, min_eq_left h]
  rw [← htake, between, List.take_append_drop]

theorem between_append (feed : Feed) (him : i ≤ m) (hmk : m ≤ k) :
    feed.between i m ++ feed.between m k = feed.between i k := by
  refine List.append_cancel_left (?_ : feed.diffs.take i ++ _ = feed.diffs.take i ++ _)
  calc feed.diffs.take i ++ (feed.between i m ++ feed.between m k)
      = feed.diffs.take m ++ feed.between m k := by
        rw [← List.append_assoc, take_append_between feed him]
    _ = feed.diffs.take k := take_append_between feed hmk
    _ = feed.diffs.take i ++ feed.between i k := (take_append_between feed (him.trans hmk)).symm

theorem book_eq_replay (feed : Feed) (h : i ≤ k) (s : Side) :
    feed.book k s = replay (feed.book i s) (diffWrites (feed.between i k) s) := by
  rw [book, book, ← take_append_between feed h, diffWrites_append, replay_append]

/-- Diffs from before `m` on, replayed on the book after `m`, lead to the book after `k`. -/
theorem replay_book (feed : Feed) (him : i ≤ m) (hmk : m ≤ k) (s : Side) :
    replay (feed.book m s) (diffWrites (feed.between i k) s) = feed.book k s := by
  have hbefore := book_eq_replay feed him s
  rw [book_eq_replay feed (him.trans hmk) s, ← between_append feed him hmk, diffWrites_append]
  conv_lhs => rw [hbefore]
  exact replay_overlap _ _ _

/-- Every size in the true book is positive. -/
theorem positive_book (feed : Feed) (k : ℕ) {p a : F64} (h : (feed.book k s)[p]? = some a) :
    a.gt F64.zero = true := by
  rw [book, getElem?_replay] at h
  cases hl : last (diffWrites (feed.diffs.take k) s) p with
  | none =>
    rw [hl] at h
    exact feed.positive s p a h
  | some o =>
    rw [hl] at h
    obtain rfl : o = some a := h
    obtain ⟨e, he, hwrite⟩ := List.mem_map.mp (mem_of_last_eq_some hl)
    obtain ⟨d, -, hd⟩ := List.mem_flatMap.mp he
    obtain ⟨rfl, hne⟩ := writeOf_snd_eq_some.mp (congrArg Prod.snd hwrite)
    rcases d.absolute s e hd with hzero | hpos
    · rw [hzero] at hne
      simp at hne
    · exact hpos

end Feed

/-! ## What the client makes of it -/

section Client

variable {feed : Feed} {cfg : Config} {m : ℕ} {snapshot : OrderBookData} {s : Side}

theorem Diff.messageType (d : Diff) : d.msg.messageType = .l2Update := (kindOf_eq_update d.kind).1

theorem Diff.keeps (d : Diff) (microtimestamp : ℕ) :
    Session.keeps microtimestamp d.msg = decide (microtimestamp < d.ts) := by
  simp [Session.keeps, d.microtimestamp]

theorem side_foldl_diffs (ds : List Diff) (b : OrderBook) (s : Side) :
    ((ds.map Diff.msg).foldl (fun b msg => OrderBook.processMsg msg none b) b).toOrderBook.side s
      = replay (b.toOrderBook.side s) (diffWrites ds s) := by
  induction ds generalizing b with
  | nil => rfl
  | cons d ds ih =>
    obtain ⟨hm, channel, data, ob, hc, hlive, hd, hob⟩ := kindOf_eq_update d.kind
    have hentries : entries d.msg s = (ob.side s).filterMap parseLevel := by
      simp [entries, payload, hd, hob]
    rw [List.map_cons, List.foldl_cons, ih, OrderBook.side_processMsg_diff hm hd hc hlive hob,
      ← hentries, letThrough, ← replay_append]
    simp [diffWrites, writes]

/-- The snapshot message puts the listed book in place. -/
theorem side_snapshotMsg (h : feed.Answers cfg m snapshot) {b : OrderBook}
    (hdepth : b.snapshotDepth = cfg.snapshotDepth) (s : Side) :
    (OrderBook.processMsg (Session.snapshotMsg cfg snapshot) none b).toOrderBook.side s
      = feed.book m s := by
  have hm : (Session.snapshotMsg cfg snapshot).messageType = .l2Snapshot := rfl
  rw [OrderBook.side_processMsg_snapshot hm rfl (OrderBookData.ofValue_toValue snapshot), hdepth]
  dsimp only
  rw [List.take_of_length_le (h.depth s)]
  ext p : 1
  refine Option.ext fun a => ?_
  rw [getElem?_replay, ← h.lists s]
  have hstores : ∀ o, (p, o) ∈ stores ((snapshot.side s).filterMap parseLevel) →
      ∃ a, o = some a ∧ (p, a) ∈ (snapshot.side s).filterMap parseLevel := by
    intro o ho
    obtain ⟨e, he, hwrite⟩ := List.mem_map.mp ho
    obtain ⟨rfl, rfl⟩ := Prod.mk.inj hwrite
    exact ⟨e.2, rfl, List.mem_of_mem_filter he⟩
  constructor
  · intro ha
    cases hl : last (stores ((snapshot.side s).filterMap parseLevel)) p with
    | none => simp [hl] at ha
    | some o =>
      obtain ⟨a', rfl, hmem⟩ := hstores o (mem_of_last_eq_some hl)
      rw [hl] at ha
      obtain rfl : a' = a := Option.some.inj ha
      exact hmem
  · intro hmem
    have hbook := (h.lists s p a).mp hmem
    have hstored : (p, some a) ∈ stores ((snapshot.side s).filterMap parseLevel) :=
      List.mem_map.mpr ⟨(p, a), List.mem_filter.mpr ⟨hmem, feed.positive_book m hbook⟩, rfl⟩
    cases hl : last (stores ((snapshot.side s).filterMap parseLevel)) p with
    | none => exact absurd rfl (last_eq_none_iff.mp hl _ hstored)
    | some o =>
      -- whatever was stored last at this price is the one size the book has there
      obtain ⟨a', rfl, hmem'⟩ := hstores o (mem_of_last_eq_some hl)
      have hbook' := (h.lists s p a').mp hmem'
      rw [hbook] at hbook'
      exact hbook'.symm

/-- The book that these messages make of an empty one. -/
def bookOf (cfg : Config) (filter : Option LobFilter) (msgs : List BitstampWsMessage) : OrderBook :=
  msgs.foldl (fun b msg => OrderBook.processMsg msg filter b)
    (OrderBook.withSnapshotDepth cfg.snapshotDepth)

/-- The snapshot and the diffs from before it on make the book of the server. -/
theorem side_bookOf (h : feed.Answers cfg m snapshot) {i k : ℕ} (him : i ≤ m) (hmk : m ≤ k)
    (s : Side) :
    (bookOf cfg none (Session.snapshotMsg cfg snapshot
        :: (feed.between i k).map Diff.msg)).toOrderBook.side s = feed.book k s := by
  rw [bookOf, List.foldl_cons, side_foldl_diffs, side_snapshotMsg h rfl]
  exact feed.replay_book him hmk s

/-! ## Runs -/

/-- The book messages that the client has read. -/
def diffsRead (conn : Conn client) : List BitstampWsMessage :=
  conn.received.filter BitstampWsMessage.forBook

/-- Diffs with increasing microtimestamps: those newer than the snapshot are all but the first
few. -/
theorem filter_newer (microtimestamp : ℕ) {ds : List Diff}
    (h : ds.Pairwise fun d d' => d.ts < d'.ts) :
    ∃ n ≤ ds.length, ds.filter (fun d => decide (microtimestamp < d.ts)) = ds.drop n ∧
      ∀ d ∈ ds.take n, d.ts ≤ microtimestamp := by
  induction ds with
  | nil => exact ⟨0, le_refl _, rfl, by simp⟩
  | cons d ds ih =>
    obtain ⟨hd, hds⟩ := List.pairwise_cons.mp h
    by_cases hnew : microtimestamp < d.ts
    · refine ⟨0, Nat.zero_le _, ?_, by simp⟩
      refine List.filter_eq_self.mpr fun d' hd' => ?_
      rcases List.mem_cons.mp hd' with rfl | hd'
      · simpa using hnew
      · simpa using hnew.trans (hd d' hd')
    · obtain ⟨n, hn, hfilter, hold⟩ := ih hds
      refine ⟨n + 1, by simpa using hn, by simpa [hnew] using hfilter, ?_⟩
      rw [List.take_succ_cons]
      exact List.forall_mem_cons.mpr ⟨not_lt.mp hnew, hold⟩

/-- What the client has read is the feed from the first delivered diff on. -/
theorem diffsRead_eq {skipped : ℕ} {es : List (ConnEvent client)}
    (h : feed.Delivers skipped es) (cfg : Config) (filter : Option LobFilter) (w : World) :
    let conn := (es.foldl (Conn.step cfg filter) (Conn.new client cfg, w)).1
    diffsRead conn
      = (feed.between skipped (skipped + (diffsRead conn).length)).map Diff.msg := by
  intro conn
  have harrived : conn.arrived = es.filterMap ConnEvent.message := Conn.arrived_run cfg filter w es
  have hprefix : diffsRead conn <+: (feed.diffs.drop skipped).map Diff.msg := by
    refine List.IsPrefix.trans ?_ h
    rw [← harrived]
    exact (List.prefix_append conn.received _).filter _
  have htake := List.prefix_iff_eq_take.mp hprefix
  rw [Feed.between, List.drop_take, Nat.add_sub_cancel_left, List.map_take]
  exact htake

/-- Before the snapshot the buffer holds what was read and the book is empty. After it, the book is
made of the snapshot and all that was read but the first few diffs, which are in the snapshot. -/
structure Reconciled (cfg : Config) (filter : Option LobFilter) (m skipped : ℕ)
    (snapshot : OrderBookData) (conn : Conn client) : Prop where
  waiting : conn.session.snapshotApplied = false →
    conn.session.orderBook = OrderBook.withSnapshotDepth cfg.snapshotDepth ∧
      conn.session.buffer = diffsRead conn
  live : conn.session.snapshotApplied = true → ∃ n ≤ (diffsRead conn).length, skipped + n ≤ m ∧
    conn.session.orderBook
      = bookOf cfg filter (Session.snapshotMsg cfg snapshot :: (diffsRead conn).drop n)

theorem diffsRead_step (cfg : Config) (filter : Option LobFilter) (st : Conn client × World)
    (e : ConnEvent client) :
    diffsRead (Conn.step cfg filter st e).1
      = diffsRead st.1 ++ ((st.1.reads e).toList.filter BitstampWsMessage.forBook) := by
  rw [diffsRead, Conn.received_step, List.filter_append, diffsRead]

/-- The buffered diffs that survive the snapshot are all but the first few, and these are among
the first `m` of the feed. -/
theorem kept_eq_drop (hans : feed.Answers cfg m snapshot) {skipped : ℕ} (hskipped : skipped ≤ m)
    {session : Session} {r : ℕ}
    (hbuffer : session.buffer = (feed.between skipped (skipped + r)).map Diff.msg) :
    ∃ n ≤ session.buffer.length, skipped + n ≤ m ∧
      session.kept snapshot = session.buffer.drop n := by
  have hincreasing : (feed.between skipped (skipped + r)).Pairwise fun d d' => d.ts < d'.ts :=
    feed.increasing.sublist ((List.drop_sublist _ _).trans (List.take_sublist _ _))
  obtain ⟨n, hn, hfilter, hold⟩ :=
    filter_newer (Session.snapshotMicrotimestamp snapshot) hincreasing
  refine ⟨n, by simpa [hbuffer] using hn, ?_, ?_⟩
  · -- otherwise diff `m + 1` would be both older and newer than the snapshot
    by_contra hm
    have hindex : m - skipped < n := by omega
    obtain ⟨d, hd⟩ : ∃ d, (feed.between skipped (skipped + r))[m - skipped]? = some d :=
      ⟨_, List.getElem?_eq_getElem (hindex.trans_le hn)⟩
    have hmem : d ∈ (feed.between skipped (skipped + r)).take n := by
      refine List.mem_of_getElem? (i := m - skipped) ?_
      rw [List.getElem?_take_of_lt hindex, hd]
    have hfeed : feed.diffs[m]? = some d := by
      rw [Feed.between, List.getElem?_drop, Nat.add_sub_cancel' hskipped, List.getElem?_take] at hd
      split at hd
      · exact hd
      · simp at hd
    exact absurd (hans.before d hfeed) (not_lt.mpr (hold d hmem))
  · have hcomp : (Session.keeps (Session.snapshotMicrotimestamp snapshot)) ∘ Diff.msg
        = fun d => decide (Session.snapshotMicrotimestamp snapshot < d.ts) :=
      funext fun d => d.keeps _
    rw [Session.kept, hbuffer, List.filter_map, hcomp, hfilter, List.map_drop]

theorem reconciled_step {filter : Option LobFilter} (hans : feed.Answers cfg m snapshot)
    {skipped : ℕ} (hskipped : skipped ≤ m) {st : Conn client × World} {e : ConnEvent client} {r : ℕ}
    (hread : diffsRead st.1 = (feed.between skipped (skipped + r)).map Diff.msg)
    (hupdate : ∀ msg, st.1.reads e = some msg → msg.forBook = true → msg.messageType = .l2Update)
    (hanswer : ∀ stamp a, e = .answer stamp a → a = .ok snapshot)
    (h : Reconciled cfg filter m skipped snapshot st.1) :
    Reconciled cfg filter m skipped snapshot (Conn.step cfg filter st e).1 := by
  have hdiffs := diffsRead_step cfg filter st e
  cases moves cfg filter st e with
  | still hreads heq =>
    simp only [hreads, Option.toList_none, List.filter_nil, List.append_nil] at hdiffs
    constructor
    · rw [heq, hdiffs]
      exact h.waiting
    · rw [heq, hdiffs]
      exact h.live
  | buffers msg hreads hbefore hafter hbook _ hbuffer =>
    constructor
    · intro _
      obtain ⟨hempty, hbuf⟩ := h.waiting hbefore
      refine ⟨hbook.trans hempty, ?_⟩
      have hfor : msg.forBook = decide (msg.messageType = .l2Update) := by
        cases hfor : msg.forBook with
        | true => simp [hupdate msg hreads hfor]
        | false =>
          simp only [BitstampWsMessage.forBook, Bool.or_eq_false_iff] at hfor
          exact hfor.2.symm
      rw [hbuffer, hbuf, hdiffs, hreads]
      by_cases hm : msg.messageType = .l2Update <;> simp [hfor, hm]
    · intro hlive
      rw [hafter] at hlive
      simp at hlive
  | live msg hreads hbefore heq =>
    obtain ⟨n, hn, hnm, hbook⟩ := h.live hbefore
    have hlive : (Conn.step cfg filter st e).1.session.snapshotApplied = true := by
      rw [heq]
      split <;> exact hbefore
    constructor
    · intro hno
      rw [hlive] at hno
      simp at hno
    · intro _
      refine ⟨n, ?_, hnm, ?_⟩
      · rw [hdiffs, List.length_append]
        exact hn.trans (Nat.le_add_right _ _)
      · rw [heq, hdiffs, hreads, List.drop_append_of_le_length hn, ← List.cons_append, bookOf,
          List.foldl_append, ← bookOf, ← hbook]
        cases hfor : msg.forBook <;> simp [hfor, Session.apply]
  | answers stamp snapshot' he hbefore heq =>
    obtain rfl : snapshot' = snapshot := by simpa using hanswer stamp _ he
    have hreads : st.1.reads e = none := by rw [he]; rfl
    simp only [hreads, Option.toList_none, List.filter_nil, List.append_nil] at hdiffs
    obtain ⟨hempty, hbuf⟩ := h.waiting hbefore
    obtain ⟨n, hn, hnm, hkept⟩ := kept_eq_drop hans hskipped (hbuf.trans hread)
    rw [Session.onAnswer_ok] at heq
    constructor
    · intro hno
      rw [heq] at hno
      simp at hno
    · intro _
      refine ⟨n, ?_, hnm, ?_⟩
      · rw [hdiffs, ← hbuf]
        exact hn
      · rw [heq, hdiffs, ← hbuf, ← hkept, bookOf, ← hempty]
        rfl
  | fails stamp a he ha => exact absurd (hanswer stamp a he) (ha snapshot)

theorem reconciled_run (filter : Option LobFilter) (hans : feed.Answers cfg m snapshot)
    {skipped : ℕ} (hskipped : skipped ≤ m) (w : World) {es : List (ConnEvent client)}
    (hdelivers : feed.Delivers skipped es)
    (hanswer : ∀ stamp a, .answer stamp a ∈ es → a = .ok snapshot) :
    Reconciled cfg filter m skipped snapshot
      (es.foldl (Conn.step cfg filter) (Conn.new client cfg, w)).1 := by
  induction es using List.reverseRecOn with
  | nil => exact ⟨fun _ => ⟨rfl, rfl⟩, fun h => by simp [Conn.new, Session.new] at h⟩
  | append_singleton es e ih =>
    have hbefore : feed.Delivers skipped es := by
      refine List.IsPrefix.trans ?_ hdelivers
      rw [List.filterMap_append]
      exact (List.prefix_append _ _).filter _
    have hread := diffsRead_eq hdelivers cfg filter w
    rw [List.foldl_concat] at hread ⊢
    refine reconciled_step hans hskipped (diffsRead_eq hbefore cfg filter w) ?_ ?_
      (ih hbefore fun stamp a h => hanswer stamp a (List.mem_append_left _ h))
    · -- what is read for the book is a diff of the feed
      intro msg hmsg hfor
      have hmem : msg ∈ diffsRead (Conn.step cfg filter
          (es.foldl (Conn.step cfg filter) (Conn.new client cfg, w)) e).1 := by
        rw [diffsRead_step, hmsg]
        simp [hfor]
      dsimp only at hread
      rw [hread] at hmem
      obtain ⟨d, -, rfl⟩ := List.mem_map.mp hmem
      exact d.messageType
    · rintro stamp a rfl
      exact hanswer stamp a (by simp)

/-- Once the snapshot is applied, the book is made of it and the diffs from before it on. -/
theorem Reconciled.orderBook {filter : Option LobFilter} {skipped : ℕ} {conn : Conn client}
    (h : Reconciled cfg filter m skipped snapshot conn)
    (hread : diffsRead conn
      = (feed.between skipped (skipped + (diffsRead conn).length)).map Diff.msg)
    (happlied : conn.session.snapshotApplied = true) :
    ∃ i ≤ m, conn.session.orderBook
      = bookOf cfg filter (Session.snapshotMsg cfg snapshot
          :: (feed.between i (skipped + (diffsRead conn).length)).map Diff.msg) := by
  obtain ⟨n, -, hnm, hbook⟩ := h.live happlied
  refine ⟨skipped + n, hnm, ?_⟩
  have hdrop : (diffsRead conn).drop n
      = (feed.between (skipped + n) (skipped + (diffsRead conn).length)).map Diff.msg := by
    conv_lhs => rw [hread]
    rw [← List.map_drop, Feed.between, List.drop_drop, Feed.between]
  rw [hbook, hdrop]

end Client

/-- **The reconciliation converges.** Let the client hear every diff of the server after the first
`skipped`, in order, and let the REST request be answered with the book after `m` diffs, where
`skipped ≤ m`. Without a filter, once the snapshot is applied and the diffs up to number `k ≥ m` are
read, both sides of its book are those of the server after `k` diffs, however the frames and the
answer are interleaved. -/
theorem reconciliation_converges (cfg : Config) (w : World) (feed : Feed) (skipped m k : ℕ)
    (snapshot : OrderBookData) (hskipped : skipped ≤ m) (hmk : m ≤ k)
    (hans : feed.Answers cfg m snapshot) (es : List (ConnEvent client))
    (hdelivers : feed.Delivers skipped es)
    (hanswer : ∀ stamp a, .answer stamp a ∈ es → a = .ok snapshot) :
    let conn := (es.foldl (Conn.step cfg none) (Conn.new client cfg, w)).1
    conn.session.snapshotApplied = true → skipped + (diffsRead conn).length = k →
      ∀ s, conn.session.orderBook.toOrderBook.side s = feed.book k s := by
  intro conn happlied hk s
  have hreconciled := reconciled_run none hans hskipped w hdelivers hanswer
  obtain ⟨i, him, hbook⟩ :=
    hreconciled.orderBook (diffsRead_eq hdelivers cfg none w) happlied
  change conn.session.orderBook = _ at hbook
  rw [hbook, hk]
  exact side_bookOf hans him hmk s

/-! ### A diff that the snapshot has already -/

/-- The first diff stores two bids, the second one amends one and removes the other. -/
def twoDiffs : Feed where
  base := OrderBook.new.toOrderBook
  diffs :=
    [{ msg := diffMsg "10" [("100", "3"), ("99", "1")] []
       ts := 10
       kind := by decide +kernel
       microtimestamp := by decide +kernel
       absolute := by decide +kernel },
     { msg := diffMsg "20" [("100", "2"), ("99", "0")] []
       ts := 20
       kind := by decide +kernel
       microtimestamp := by decide +kernel
       absolute := by decide +kernel }]
  positive s p a h := by
    cases s <;> simp [OrderBook.new, OrderBook.withSnapshotDepth, OrderBook.side] at h
  increasing := by decide

def afterFirstDiff : OrderBookData :=
  { bids := [("100", "3"), ("99", "1")], microtimestamp := "15" }

theorem answers_afterFirstDiff : twoDiffs.Answers bitstampConfig 1 afterFirstDiff where
  lists s p a := by
    rw [← Std.ExtTreeMap.mem_toList_iff_getElem?_eq_some]
    have hlist : ∀ s, (twoDiffs.book 1 s).toList
        = (afterFirstDiff.side s).filterMap parseLevel := by decide +kernel
    rw [hlist]
  depth := by decide
  notBefore := by decide +kernel
  before := by decide +kernel

/-- The first diff waits in the socket during the request and is applied a second time. -/
def overlapRun : List (ConnEvent client) :=
  [.arrive (.text "" (some subscribedMsg)), .poll { now := 0 },
    .arrive (.text "" (some (diffMsg "10" [("100", "3"), ("99", "1")] []))),
    .answer { now := 0 } (.ok afterFirstDiff), .poll { now := 0 },
    .arrive (.text "" (some (diffMsg "20" [("100", "2"), ("99", "0")] []))), .poll { now := 0 }]

theorem delivers_overlapRun : twoDiffs.Delivers 0 overlapRun := by
  have hsubscribed : subscribedMsg.forBook = false := by decide +kernel
  have hdiffs : ∀ d ∈ twoDiffs.diffs, d.msg.forBook = true := by
    intro d _
    simp [BitstampWsMessage.forBook, d.messageType]
  have hmessages : overlapRun.filterMap ConnEvent.message
      = subscribedMsg :: twoDiffs.diffs.map Diff.msg := rfl
  rw [Feed.Delivers, hmessages, List.filter_cons_of_neg (by simp [hsubscribed]),
    List.filter_eq_self.mpr (List.forall_mem_map.mpr hdiffs)]
  exact List.prefix_rfl

theorem reconciliation_converges_overlapRun :
    let book := (overlapRun.foldl (Conn.step bitstampConfig none)
      (Conn.new client bitstampConfig, {})).1.session.orderBook.toOrderBook
    book.side .bid = twoDiffs.book 2 .bid ∧ book.side .ask = twoDiffs.book 2 .ask := by
  have hanswer : ∀ stamp a, .answer stamp a ∈ overlapRun → a = .ok afterFirstDiff := by
    intro stamp a h
    simp only [overlapRun, List.mem_cons, List.not_mem_nil, or_false, reduceCtorEq, false_or,
      ConnEvent.answer.injEq] at h
    exact h.2
  have hbook := reconciliation_converges bitstampConfig {} twoDiffs 0 1 2 afterFirstDiff
    (by decide) (by decide) answers_afterFirstDiff overlapRun delivers_overlapRun hanswer
    (by decide +kernel) (by decide +kernel)
  exact ⟨hbook .bid, hbook .ask⟩

end Bitstamp
end Cryptomeria
