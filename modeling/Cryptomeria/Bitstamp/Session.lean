import Cryptomeria.Bitstamp.Ws
import Cryptomeria.Lib.Trace

/-!
# A Bitstamp session

What messages and the answer of the REST request do to a session, and the first law of the
reconciliation: whether everything applied after the snapshot is newer than it
(`no_stale_diff_iff`). The replay of the buffer looks at the microtimestamps; the live branch does
not, and it also reads what was waiting in the socket during the request.
-/

set_option autoImplicit false

namespace Cryptomeria
namespace Bitstamp

/-- A message that the live branch applies to the order book. -/
def BitstampWsMessage.forBook (self : BitstampWsMessage) : Bool :=
  self.messageType = .l2Snapshot || self.messageType = .l2Update

/-! ## Messages and the answer -/

namespace Session

variable {cfg : Config} {filter : Option LobFilter} {self : Session} {msg : BitstampWsMessage}

/-- Before the snapshot a message is buffered at most. -/
theorem onMessage_buffering (h : self.snapshotApplied = false) (filter : Option LobFilter)
    (msg : BitstampWsMessage) :
    (onMessage filter msg self).snapshotApplied = false ∧
      (onMessage filter msg self).orderBook = self.orderBook ∧
      (onMessage filter msg self).applied = self.applied ∧
      (onMessage filter msg self).buffer
        = self.buffer ++ if msg.messageType = .l2Update then [msg] else [] := by
  unfold onMessage
  simp only [h, Bool.not_false, if_true]
  cases hm : msg.messageType with
  | l2Update =>
    dsimp only
    split <;> simp
  | event =>
    by_cases hev : msg.event = some "bts:subscription_succeeded"
    · simp only [hev, if_true]
      split <;> simp
    · simp only [hev, if_false]
      split <;> simp [h]
  | trade | unknown | l2Snapshot =>
    dsimp only
    split <;> simp [h]

theorem onMessage_live (h : self.snapshotApplied = true) (filter : Option LobFilter)
    (msg : BitstampWsMessage) :
    onMessage filter msg self = if msg.forBook then self.apply filter msg else self := by
  unfold onMessage BitstampWsMessage.forBook
  cases hm : msg.messageType <;> simp [h]

theorem foldl_apply (filter : Option LobFilter) (msgs : List BitstampWsMessage) (self : Session) :
    msgs.foldl (fun self msg => self.apply filter msg) self
      = { self with
          orderBook := msgs.foldl (fun b msg => OrderBook.processMsg msg filter b) self.orderBook
          applied := self.applied ++ msgs.map Applied.message } := by
  induction msgs generalizing self with
  | nil => simp
  | cons msg msgs ih => rw [List.foldl_cons, ih]; simp [apply]

/-- The buffered messages that survive a snapshot. -/
def kept (self : Session) (snapshot : OrderBookData) : List BitstampWsMessage :=
  self.buffer.filter (keeps (snapshotMicrotimestamp snapshot))

theorem onAnswer_ok (cfg : Config) (filter : Option LobFilter) (snapshot : OrderBookData)
    (self : Session) :
    onAnswer cfg filter (.ok snapshot) self
      = { self with
          orderBook := (self.kept snapshot).foldl (fun b msg => OrderBook.processMsg msg filter b)
            (OrderBook.processMsg (snapshotMsg cfg snapshot) filter self.orderBook)
          buffer := []
          snapshotApplied := true
          applied := self.applied ++ .snapshot (snapshotMicrotimestamp snapshot)
            :: (self.kept snapshot).map Applied.message } := by
  simp [onAnswer, foldl_apply, applySnapshot, kept]

end Session

/-- A handler that waits has not applied a snapshot. -/
theorem takes_eq_some {conn : Conn client} {stamp : Stamp} {a : RestAnswer}
    (h : conn.takes (.answer stamp a) = some a) : conn.session.snapshotApplied = false := by
  have hawait : conn.session.awaiting = true := by
    by_contra hno
    simp [Conn.takes, hno] at h
  simp only [Session.awaiting, Bool.and_eq_true, Bool.not_eq_true'] at hawait
  exact hawait.2

/-- What an event makes of the session: it stays, a message is buffered, a message is read live,
the snapshot arrives, or the request has failed. -/
inductive Moves (cfg : Config) (filter : Option LobFilter) (conn : Conn client)
    (e : ConnEvent client) (after : Session) : Prop
  | still (hreads : conn.reads e = none) (h : after = conn.session)
  | buffers (msg : BitstampWsMessage) (hreads : conn.reads e = some msg)
      (hbefore : conn.session.snapshotApplied = false) (hafter : after.snapshotApplied = false)
      (hbook : after.orderBook = conn.session.orderBook)
      (happlied : after.applied = conn.session.applied)
      (hbuffer : after.buffer
        = conn.session.buffer ++ if msg.messageType = .l2Update then [msg] else [])
  | live (msg : BitstampWsMessage) (hreads : conn.reads e = some msg)
      (hbefore : conn.session.snapshotApplied = true)
      (h : after = if msg.forBook then conn.session.apply filter msg else conn.session)
  | answers (stamp : Stamp) (snapshot : OrderBookData) (he : e = .answer stamp (.ok snapshot))
      (hbefore : conn.session.snapshotApplied = false)
      (h : after = conn.session.onAnswer cfg filter (.ok snapshot))
  | fails (stamp : Stamp) (a : RestAnswer) (he : e = .answer stamp a)
      (ha : ∀ snapshot, a ≠ .ok snapshot) (hbefore : conn.session.snapshotApplied = false)
      (h : after = { conn.session with snapshotApplied := true })

theorem moves (cfg : Config) (filter : Option LobFilter) (st : Conn client × World)
    (e : ConnEvent client) :
    Moves cfg filter st.1 e (Conn.step cfg filter st e).1.session := by
  have heffect : Conn.Effect cfg filter st.1 st.2 e (Conn.step cfg filter st e) :=
    Conn.step_effect st e
  generalize Conn.step cfg filter st e = st' at heffect ⊢
  cases heffect with
  | quiet hreads _ hsession => exact .still hreads hsession
  | @message _ msg conn' hreads hsession =>
    cases hlive : st.1.session.snapshotApplied with
    | false =>
      replace hsession : conn'.session = Session.onMessage filter msg st.1.session := hsession
      obtain ⟨hafter, hbook, happlied, hbuffer⟩ := Session.onMessage_buffering hlive filter msg
      rw [← hsession] at hafter hbook happlied hbuffer
      exact .buffers msg hreads hlive hafter hbook happlied hbuffer
    | true =>
      have hafter := Session.onMessage_live hlive filter msg
      exact .live msg hreads hlive (hsession.trans hafter)
  | @answer stamp a conn' htakes hsession =>
    have hbefore := takes_eq_some htakes
    cases a with
    | ok snapshot => exact .answers stamp snapshot rfl hbefore hsession
    | badJson => exact .fails stamp _ rfl (fun _ h => by cases h) hbefore hsession
    | failed => exact .fails stamp _ rfl (fun _ h => by cases h) hbefore hsession

/-! ## No stale diff -/

/-- A message of the `diff_order_book` channel. -/
def BitstampWsMessage.isDiff (self : BitstampWsMessage) : Bool :=
  self.channel.any fun channel => channel.startsWith "diff_order_book_"

/-- A diff with a microtimestamp is newer than the snapshot. -/
def Newer (microtimestamp : ℕ) (msg : BitstampWsMessage) : Prop :=
  msg.isDiff = true → ∀ us ∈ msg.microtimestampUs, microtimestamp < us

instance (microtimestamp : ℕ) (msg : BitstampWsMessage) : Decidable (Newer microtimestamp msg) :=
  inferInstanceAs (Decidable (msg.isDiff = true → ∀ us ∈ msg.microtimestampUs, microtimestamp < us))

/-- A message that is applied after a snapshot is newer than it. -/
def Applied.InOrder : Applied → Applied → Prop
  | .snapshot microtimestamp, .message msg => Newer microtimestamp msg
  | _, _ => True

instance : (first later : Applied) → Decidable (first.InOrder later)
  | .snapshot microtimestamp, .message msg => inferInstanceAs (Decidable (Newer microtimestamp msg))
  | .snapshot _, .snapshot _ => inferInstanceAs (Decidable True)
  | .message _, _ => inferInstanceAs (Decidable True)

/-- Whatever is applied after a snapshot is newer than it. -/
def NoStale (applied : List Applied) : Prop := applied.Pairwise Applied.InOrder

instance (applied : List Applied) : Decidable (NoStale applied) :=
  inferInstanceAs (Decidable (applied.Pairwise Applied.InOrder))

theorem newer_of_keeps {microtimestamp : ℕ} {msg : BitstampWsMessage}
    (h : Session.keeps microtimestamp msg = true) : Newer microtimestamp msg := by
  intro _ us hus
  rw [Option.mem_def] at hus
  simpa [Session.keeps, hus] using h

theorem noStale_concat {applied : List Applied} {msg : BitstampWsMessage} :
    NoStale (applied ++ [.message msg]) ↔
      NoStale applied ∧ ∀ microtimestamp, .snapshot microtimestamp ∈ applied →
        Newer microtimestamp msg := by
  rw [NoStale, List.pairwise_append, NoStale]
  simp only [List.pairwise_singleton, true_and, List.mem_singleton, forall_eq]
  refine and_congr_right fun _ => ⟨fun h t ht => h _ ht, fun h first hfirst => ?_⟩
  cases first with
  | snapshot t => exact h t hfirst
  | message _ => trivial

theorem noStale_snapshot {microtimestamp : ℕ} {msgs : List BitstampWsMessage}
    (h : ∀ msg ∈ msgs, Newer microtimestamp msg) :
    NoStale (.snapshot microtimestamp :: msgs.map Applied.message) := by
  refine List.Pairwise.cons ?_ (List.pairwise_map.mpr ?_)
  · intro later hlater
    obtain ⟨msg, hmsg, rfl⟩ := List.mem_map.mp hlater
    exact h msg hmsg
  · exact List.pairwise_of_forall fun _ _ => trivial

section Run

variable {cfg : Config} {filter : Option LobFilter} {st : Conn client × World}
  {e : ConnEvent client}

/-- A book message that is read after a snapshot is newer than it. -/
def LiveNewer (st : Conn client × World) (e : ConnEvent client) : Prop :=
  ∀ msg, st.1.reads e = some msg → msg.forBook = true →
    ∀ microtimestamp, .snapshot microtimestamp ∈ st.1.session.applied → Newer microtimestamp msg

/-- Nothing is applied before the snapshot. -/
def AppliesLater (session : Session) : Prop :=
  session.snapshotApplied = false → session.applied = []

theorem appliesLater_step (h : AppliesLater st.1.session) :
    AppliesLater (Conn.step cfg filter st e).1.session := by
  intro hafter
  cases moves cfg filter st e with
  | still _ heq =>
    rw [heq] at hafter ⊢
    exact h hafter
  | buffers msg _ hbefore _ _ happlied => rw [happlied, h hbefore]
  | live msg _ hbefore heq =>
    rw [heq] at hafter
    split at hafter <;> simp [Session.apply, hbefore] at hafter
  | answers stamp snapshot _ _ heq =>
    rw [heq, Session.onAnswer_ok] at hafter
    simp at hafter
  | fails stamp a _ _ _ heq =>
    rw [heq] at hafter
    simp at hafter

theorem noStale_step_iff (hI : AppliesLater st.1.session) (hP : NoStale st.1.session.applied) :
    NoStale (Conn.step cfg filter st e).1.session.applied ↔ LiveNewer st e := by
  have hquiet : st.1.reads e = none → LiveNewer st e := by
    intro hreads msg hmsg
    rw [hreads] at hmsg
    simp at hmsg
  cases moves cfg filter st e with
  | still hreads heq =>
    rw [heq]
    exact iff_of_true hP (hquiet hreads)
  | buffers msg _ hbefore _ _ happlied =>
    rw [happlied]
    refine iff_of_true hP fun _ _ _ t ht => ?_
    rw [hI hbefore] at ht
    simp at ht
  | live msg hreads _ heq =>
    rw [heq]
    cases hbook : msg.forBook with
    | false =>
      refine iff_of_true hP fun msg' hmsg' hfor => ?_
      rw [hreads] at hmsg'
      obtain rfl := Option.some.inj hmsg'
      rw [hbook] at hfor
      simp at hfor
    | true =>
      rw [if_pos rfl, Session.apply, noStale_concat, and_iff_right hP]
      constructor
      · intro h msg' hmsg' _
        rw [hreads] at hmsg'
        obtain rfl := Option.some.inj hmsg'
        exact h
      · exact fun h => h msg hreads hbook
  | answers stamp snapshot he hbefore heq =>
    -- the replay has looked at the microtimestamps
    rw [heq, Session.onAnswer_ok]
    simp only [hI hbefore, List.nil_append]
    refine iff_of_true (noStale_snapshot fun msg hmsg => ?_) (hquiet (by rw [he]; rfl))
    exact newer_of_keeps (List.mem_filter.mp hmsg).2
  | fails stamp a he _ _ heq =>
    rw [heq]
    exact iff_of_true hP (hquiet (by rw [he]; rfl))

end Run

/-- **When no stale diff is applied.** In every session and for every interleaving of the frames
with the answer of the REST request, each diff with a microtimestamp that is applied after the
snapshot is newer than it if and only if each one that is read after the snapshot is. -/
theorem no_stale_diff_iff (cfg : Config) (filter : Option LobFilter) (w : World)
    (es : List (ConnEvent client)) :
    Trace.Always (Conn.step cfg filter)
        (fun st : Conn client × World => NoStale st.1.session.applied)
        (Conn.new client cfg, w) es ↔
      Trace.EachStep (Conn.step cfg filter) LiveNewer (Conn.new client cfg, w) es :=
  Trace.always_iff_eachStep (H := fun _ => True)
    (I := fun st : Conn client × World => AppliesLater st.1.session) (fun _ => rfl)
    List.Pairwise.nil (fun _ _ => trivial)
    (fun _ _ hI _ _ => appliesLater_step hI) (fun _ _ hI hP _ => noStale_step_iff hI hP)

/-! ### A diff that waited in the socket -/

def bitstampConfig : Config :=
  { instrument := "btcusd", exchange := "bitstamp", cliInstrument := "btcusd"
    channelInstrument := "btcusd", wsUrl := "wss://ws.bitstamp.net", maxLevelPct := .fin 10 }

/-- A message of the `diff_order_book` channel with these levels. -/
def diffMsg (microtimestamp : String) (bids asks : List (String × String)) : BitstampWsMessage :=
  { event := some "data", channel := some "diff_order_book_btcusd"
    data := some (OrderBookData.toValue { bids, asks, microtimestamp }) }

def subscribedMsg : BitstampWsMessage :=
  { event := some "bts:subscription_succeeded", channel := some "diff_order_book_btcusd" }

/-- A diff arrives during the request, and the snapshot that answers it is newer. -/
def lateDiffRun : List (ConnEvent client) :=
  [.arrive (.text "" (some subscribedMsg)), .poll { now := 0 },
    .arrive (.text "" (some (diffMsg "5" [("100", "1")] []))),
    .answer { now := 0 } (.ok { bids := [("100", "2")], microtimestamp := "10" }),
    .poll { now := 0 }]

/-- The live branch applies the diff from before the snapshot. -/
theorem stale_diff_applied :
    ¬ ∀ (cfg : Config) (filter : Option LobFilter) (w : World) (es : List (ConnEvent client)),
      Trace.Always (Conn.step cfg filter)
        (fun st : Conn client × World => NoStale st.1.session.applied)
        (Conn.new client cfg, w) es := by
  intro h
  exact absurd (h bitstampConfig none {} lateDiffRun).last (by decide +kernel)

end Bitstamp
end Cryptomeria
