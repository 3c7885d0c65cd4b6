import Cryptomeria.Bitstamp.Session

/-!
# The snapshot step

When the REST snapshot is requested, and what becomes of the diffs that were read before it.

The request waits for a `bts:subscription_succeeded` of any channel, so it is sent under a live diff
subscription exactly when the first confirmation is that of the diff channel
(`requested_live_iff`). With the answer the loop changes to its live branch, whatever the answer is,
but only a snapshot takes the diffs out of the buffer (`hands_over_iff`).
-/

set_option autoImplicit false

namespace Cryptomeria
namespace Bitstamp

/-! ## The request -/

/-- A confirmation of any subscription. -/
def BitstampWsMessage.confirms (self : BitstampWsMessage) : Bool :=
  self.event = some "bts:subscription_succeeded"

theorem Session.messageType_of_confirms {msg : BitstampWsMessage} (h : msg.confirms = true) :
    msg.messageType = .event := by
  have hevent : msg.event = some "bts:subscription_succeeded" := of_decide_eq_true h
  simp [BitstampWsMessage.messageType, hevent]

/-- The first confirmation of a connection makes the handler send the request. -/
theorem Session.onMessage_request {self : Session} (filter : Option LobFilter)
    (msg : BitstampWsMessage) (happlied : self.snapshotApplied = false)
    (hconfirmed : self.subscriptionConfirmed = false) :
    (onMessage filter msg self).subscriptionConfirmed = msg.confirms ∧
      (onMessage filter msg self).snapshotAttempted
        = (self.snapshotAttempted || msg.confirms) := by
  cases hmsg : msg.confirms with
  | true =>
    have hevent : msg.event = some "bts:subscription_succeeded" := of_decide_eq_true hmsg
    unfold onMessage
    simp only [happlied, messageType_of_confirms hmsg, hevent]
    cases self.snapshotAttempted <;> simp
  | false =>
    have hevent : msg.event ≠ some "bts:subscription_succeeded" := of_decide_eq_false hmsg
    unfold onMessage
    simp only [happlied]
    cases msg.messageType <;> simp [hevent, hconfirmed]

/-- A confirmation of the diff channel has been read. -/
def DiffsConfirmed (cfg : Config) (conn : Conn client) : Prop :=
  ∃ msg ∈ conn.received, msg.confirms = true ∧ msg.channel = some (ordersChannel cfg)

/-- If the snapshot has been requested, the diff subscription was live. -/
def RequestedLive (cfg : Config) (st : Conn client × World) : Prop :=
  st.1.session.snapshotAttempted = true → DiffsConfirmed cfg st.1

/-- A confirmation that is read before the request is that of the diff channel. -/
def ConfirmsDiffs (cfg : Config) (st : Conn client × World) (e : ConnEvent client) : Prop :=
  st.1.session.snapshotAttempted = false → ∀ msg, st.1.reads e = some msg →
    msg.confirms = true → msg.channel = some (ordersChannel cfg)

/-- Before the request nothing is confirmed. -/
def Unconfirmed (conn : Conn client) : Prop :=
  conn.session.snapshotAttempted = false → conn.session.snapshotApplied = false ∧
    conn.session.subscriptionConfirmed = false ∧ ∀ msg ∈ conn.received, msg.confirms = false

section Request

variable {cfg : Config} {filter : Option LobFilter} {st : Conn client × World}
  {e : ConnEvent client}

theorem attempted_step (h : st.1.session.snapshotAttempted = true) :
    (Conn.step cfg filter st e).1.session.snapshotAttempted = true := by
  have heffect : Conn.Effect cfg filter st.1 st.2 e (Conn.step cfg filter st e) :=
    Conn.step_effect st e
  generalize Conn.step cfg filter st e = st' at heffect ⊢
  cases heffect with
  | quiet _ _ hsession _ => rw [hsession, h]
  | @message _ msg conn' _ hsession =>
    replace hsession : conn'.session = Session.onMessage filter msg st.1.session := hsession
    rw [hsession]
    cases hlive : st.1.session.snapshotApplied with
    | true =>
      rw [Session.onMessage_live hlive]
      split <;> exact h
    | false =>
      unfold Session.onMessage
      simp only [hlive]
      cases msg.messageType <;> simp [h]
      split <;> simp [h]
  | @answer _ a conn' _ hsession =>
    replace hsession : conn'.session = Session.onAnswer cfg filter a st.1.session := hsession
    rw [hsession]
    cases a with
    | ok snapshot =>
      rw [Session.onAnswer_ok]
      exact h
    | badJson | failed => exact h

/-- Until the request a connection only reads, and the first confirmation sends it. -/
theorem before_request_step (cfg : Config) (filter : Option LobFilter) (e : ConnEvent client)
    (hI : Unconfirmed st.1) (hbefore : st.1.session.snapshotAttempted = false) :
    ((Conn.step cfg filter st e).1.session.snapshotAttempted
        = (st.1.reads e).any BitstampWsMessage.confirms) ∧
      ((st.1.reads e).any BitstampWsMessage.confirms = false →
        (Conn.step cfg filter st e).1.session.snapshotApplied = false ∧
          (Conn.step cfg filter st e).1.session.subscriptionConfirmed = false) := by
  obtain ⟨happlied, hconfirmed, -⟩ := hI hbefore
  have heffect : Conn.Effect cfg filter st.1 st.2 e (Conn.step cfg filter st e) :=
    Conn.step_effect st e
  generalize Conn.step cfg filter st e = st' at heffect ⊢
  cases heffect with
  | quiet hreads _ hsession _ =>
    rw [hsession, hreads]
    exact ⟨hbefore, fun _ => ⟨happlied, hconfirmed⟩⟩
  | @message _ msg conn' hreads hsession =>
    replace hsession : conn'.session = Session.onMessage filter msg st.1.session := hsession
    obtain ⟨hconf, hattempt⟩ := Session.onMessage_request filter msg happlied hconfirmed
    rw [hsession, hreads, Option.any_some, hattempt, hbefore, Bool.false_or]
    refine ⟨rfl, fun hno => ⟨?_, hconf.trans hno⟩⟩
    exact (Session.onMessage_buffering happlied filter msg).1
  | answer htakes _ =>
    -- a handler that waits has sent the request
    simp [Conn.takes, Session.awaiting, hbefore] at htakes

theorem unconfirmed_step (hI : Unconfirmed st.1) :
    Unconfirmed (Conn.step cfg filter st e).1 := by
  intro hafter
  cases hbefore : st.1.session.snapshotAttempted with
  | true =>
    rw [attempted_step hbefore] at hafter
    simp at hafter
  | false =>
    obtain ⟨hattempt, hflags⟩ := before_request_step cfg filter e hI hbefore
    rw [hattempt] at hafter
    obtain ⟨happlied, hconfirmed⟩ := hflags hafter
    refine ⟨happlied, hconfirmed, ?_⟩
    rw [Conn.received_step]
    refine List.forall_mem_append.mpr ⟨(hI hbefore).2.2, fun msg hmsg => ?_⟩
    rw [Option.mem_toList] at hmsg
    simpa [hmsg] using hafter

theorem requestedLive_step_iff (hI : Unconfirmed st.1) (hP : RequestedLive cfg st) :
    RequestedLive cfg (Conn.step cfg filter st e) ↔ ConfirmsDiffs cfg st e := by
  cases hbefore : st.1.session.snapshotAttempted with
  | true =>
    refine iff_of_true (fun _ => ?_) fun hno => absurd (hno.symm.trans hbefore) (by simp)
    obtain ⟨msg, hmsg, hconfirms⟩ := hP hbefore
    refine ⟨msg, ?_, hconfirms⟩
    rw [Conn.received_step]
    exact List.mem_append_left _ hmsg
  | false =>
    have hattempt := (before_request_step cfg filter e hI hbefore).1
    rw [RequestedLive, hattempt, ConfirmsDiffs]
    constructor
    · intro h _ msg hreads hmsg
      obtain ⟨msg', hmem, hconfirms, hchannel⟩ := h (by rw [hreads]; exact hmsg)
      rw [Conn.received_step, hreads, Option.toList_some, List.mem_append,
        List.mem_singleton] at hmem
      rcases hmem with hold | rfl
      · exact absurd (((hI hbefore).2.2 msg' hold).symm.trans hconfirms) (by simp)
      · exact hchannel
    · intro h hany
      obtain ⟨msg, hreads, hmsg⟩ := Option.any_eq_true _ _ |>.mp hany
      refine ⟨msg, ?_, hmsg, h hbefore msg hreads hmsg⟩
      rw [Conn.received_step, hreads]
      exact List.mem_append_right _ (List.mem_singleton_self msg)

end Request

/-- **When the snapshot is taken under a live subscription.** In every connection and for every
order of its frames, the request follows a confirmation of the diff channel if and only if each
confirmation that is read before the request is that of the diff channel. -/
theorem requested_live_iff (cfg : Config) (filter : Option LobFilter) (w : World)
    (es : List (ConnEvent client)) :
    Trace.Always (Conn.step cfg filter) (RequestedLive cfg) (Conn.new client cfg, w) es ↔
      Trace.EachStep (Conn.step cfg filter) (ConfirmsDiffs cfg) (Conn.new client cfg, w) es := by
  refine Trace.always_iff_eachStep (H := fun _ => True)
    (I := fun st : Conn client × World => Unconfirmed st.1) ?_ ?_ (fun _ _ => trivial)
    (fun _ _ hI _ _ => unconfirmed_step hI) fun _ _ hI hP _ => requestedLive_step_iff hI hP
  · exact fun _ => ⟨rfl, rfl, by simp [Conn.new]⟩
  · exact fun hattempted => absurd hattempted (by simp [Conn.new, Session.new])

/-- The confirmation of the trades channel comes first. -/
def tradesConfirmedFirst : List (ConnEvent client) :=
  [.arrive (.text "" (some { event := some "bts:subscription_succeeded"
                             channel := some (tradesChannel bitstampConfig) })),
    .poll { now := 0 }]

theorem requested_under_trades :
    ¬ Trace.Always (Conn.step bitstampConfig none) (RequestedLive bitstampConfig)
      (Conn.new client bitstampConfig, {}) tradesConfirmedFirst := by
  intro h
  obtain ⟨msg, hmsg, -, hchannel⟩ := h.last (by decide +kernel)
  obtain rfl := List.mem_singleton.mp hmsg
  exact absurd hchannel (by decide +kernel)

/-! ## The buffer -/

/-- A snapshot discards what is not newer; without one nothing is discarded. -/
def RestAnswer.discards (a : RestAnswer) (msg : BitstampWsMessage) : Bool :=
  match a with
  | .ok snapshot =>
    msg.microtimestampUs.any fun us => decide (us ≤ Session.snapshotMicrotimestamp snapshot)
  | .badJson | .failed => false

/-- The snapshot that an answer puts on the book. -/
def RestAnswer.applied : RestAnswer → List Applied
  | .ok snapshot => [.snapshot (Session.snapshotMicrotimestamp snapshot)]
  | .badJson | .failed => []

/-- What an observer of the connection writes down: the diffs that are read before the answer, the
answer, and the book messages that are read after it. -/
structure Journal where
  before : List BitstampWsMessage := []
  answer : Option RestAnswer := none
  after : List BitstampWsMessage := []

namespace Journal

def record (conn : Conn client) (e : ConnEvent client) (j : Journal) : Journal :=
  match conn.reads e, conn.takes e with
  | some msg, _ =>
    if conn.session.snapshotApplied then
      { j with after := j.after ++ if msg.forBook then [msg] else [] }
    else { j with before := j.before ++ if msg.messageType = .l2Update then [msg] else [] }
  | none, some a => { j with answer := some a }
  | none, none => j

/-- What should have been applied: after the answer its snapshot, the diffs from before it that it
does not discard, and all that was read later, in this order. -/
def due (j : Journal) : List Applied :=
  match j.answer with
  | none => []
  | some a =>
    a.applied ++ (j.before.filter (fun msg => !a.discards msg) ++ j.after).map Applied.message

end Journal

/-- A connection under observation. -/
def observe (cfg : Config) (filter : Option LobFilter) (st : (Conn client × World) × Journal)
    (e : ConnEvent client) : (Conn client × World) × Journal :=
  (Conn.step cfg filter st.1 e, st.2.record st.1.1 e)

/-- Every diff is handed over to the book or discarded, each once and in order. -/
def HandsOver (st : (Conn client × World) × Journal) : Prop :=
  st.1.1.session.applied = st.2.due

/-- A request that fails finds the buffer empty. -/
def FailsEmpty (st : (Conn client × World) × Journal) (e : ConnEvent client) : Prop :=
  ∀ a, st.1.1.takes e = some a → (∀ snapshot, a ≠ .ok snapshot) → st.1.1.session.buffer = []

/-- Before the answer the buffer holds what the journal has, and the journal has no more. -/
structure Observed (st : (Conn client × World) × Journal) : Prop where
  answered : st.2.answer.isSome = st.1.1.session.snapshotApplied
  buffered : st.1.1.session.snapshotApplied = false → st.1.1.session.buffer = st.2.before
  later : st.1.1.session.snapshotApplied = false → st.2.after = []

section Handover

variable {cfg : Config} {filter : Option LobFilter} {st : (Conn client × World) × Journal}
  {e : ConnEvent client}

theorem keeps_eq_not_discards (snapshot : OrderBookData) (msg : BitstampWsMessage) :
    Session.keeps (Session.snapshotMicrotimestamp snapshot) msg
      = !(RestAnswer.ok snapshot).discards msg := by
  unfold Session.keeps RestAnswer.discards
  cases msg.microtimestampUs with
  | none => rfl
  | some us =>
    dsimp only
    rw [Option.any_some, ← decide_not]
    exact decide_eq_decide.mpr not_le.symm

/-- An answer is no message. -/
theorem reads_of_takes {conn : Conn client} {a : RestAnswer} (h : conn.takes e = some a) :
    conn.reads e = none := by
  cases e with
  | answer stamp a => rfl
  | arrive item => rfl
  | poll stamp => simp [Conn.takes] at h

theorem record_quiet {conn : Conn client} {j : Journal} (hreads : conn.reads e = none)
    (htakes : conn.takes e = none) : j.record conn e = j := by
  rw [Journal.record, hreads, htakes]

theorem record_message {conn : Conn client} {j : Journal} {msg : BitstampWsMessage}
    (hreads : conn.reads e = some msg) :
    j.record conn e = if conn.session.snapshotApplied then
        { j with after := j.after ++ if msg.forBook then [msg] else [] }
      else { j with before := j.before ++ if msg.messageType = .l2Update then [msg] else [] } := by
  rw [Journal.record, hreads]

theorem record_answer {conn : Conn client} {j : Journal} {a : RestAnswer}
    (htakes : conn.takes e = some a) : j.record conn e = { j with answer := some a } := by
  rw [Journal.record, reads_of_takes htakes, htakes]

theorem Journal.due_unanswered {j : Journal} (h : j.answer = none) : j.due = [] := by
  rw [Journal.due, h]

/-- A message is buffered before the answer and applied after it. -/
theorem observe_message (hI : Observed st) (hP : HandsOver st) {msg : BitstampWsMessage}
    (hreads : st.1.1.reads e = some msg) {conn : Conn client} {w : World}
    (hsession : conn.session = Session.onMessage filter msg st.1.1.session) :
    Observed ((conn, w), st.2.record st.1.1 e) ∧
      HandsOver ((conn, w), st.2.record st.1.1 e) := by
  obtain ⟨hanswered, hbuffered, hlater⟩ := hI
  rw [record_message hreads]
  cases hlive : st.1.1.session.snapshotApplied with
  | false =>
    rw [hlive] at hanswered
    have hnone : st.2.answer = none := by simpa using hanswered
    obtain ⟨hafter, -, happlied, hbuffer⟩ := Session.onMessage_buffering hlive filter msg
    rw [← hsession] at hafter happlied hbuffer
    simp only [Bool.false_eq_true, if_false]
    refine ⟨⟨?_, ?_, ?_⟩, ?_⟩
    · exact hanswered.trans hafter.symm
    · intro _
      rw [hbuffer, hbuffered hlive]
    · exact fun _ => hlater hlive
    · refine happlied.trans (hP.trans ?_)
      rw [Journal.due_unanswered hnone, Journal.due_unanswered]
      exact hnone
  | true =>
    rw [hlive] at hanswered
    obtain ⟨a, ha⟩ := Option.isSome_iff_exists.mp hanswered
    rw [Session.onMessage_live hlive] at hsession
    have hafter : conn.session.snapshotApplied = true := by
      rw [hsession]
      split <;> exact hlive
    have hwaiting : ∀ {p : Prop}, conn.session.snapshotApplied = false → p :=
      fun hno => absurd (hno.symm.trans hafter) (by simp)
    refine ⟨⟨hanswered.trans hafter.symm, hwaiting, hwaiting⟩, ?_⟩
    replace hP : st.1.1.session.applied = st.2.due := hP
    show conn.session.applied = _
    rw [Journal.due, ha] at hP
    rw [hsession, Journal.due]
    simp only [if_true, ha]
    split
    · simp [Session.apply, hP]
    · simp [hP]

theorem observe_answer (hI : Observed st) (hP : HandsOver st) {stamp : Stamp} {a : RestAnswer}
    (he : e = .answer stamp a) (htakes : st.1.1.takes e = some a) {conn : Conn client} {w : World}
    (hsession : conn.session = Session.onAnswer cfg filter a st.1.1.session) :
    Observed ((conn, w), st.2.record st.1.1 e) ∧
      (HandsOver ((conn, w), st.2.record st.1.1 e) ↔ FailsEmpty st e) := by
  obtain ⟨hanswered, hbuffered, hlater⟩ := hI
  have hbefore : st.1.1.session.snapshotApplied = false := takes_eq_some (he ▸ htakes)
  have hnone : st.2.answer = none := by simpa [hbefore] using hanswered
  have happlied : st.1.1.session.applied = [] := hP.trans (Journal.due_unanswered hnone)
  have hafter : conn.session.snapshotApplied = true := by
    rw [hsession]
    cases a with
    | ok snapshot => rw [Session.onAnswer_ok]
    | badJson | failed => rfl
  have hwaiting : ∀ {p : Prop}, conn.session.snapshotApplied = false → p :=
    fun hno => absurd (hno.symm.trans hafter) (by simp)
  rw [record_answer htakes]
  refine ⟨⟨hafter.symm, hwaiting, hwaiting⟩, ?_⟩
  have hover : HandsOver ((conn, w), { st.2 with answer := some a })
      ↔ conn.session.applied = a.applied
        ++ (st.2.before.filter fun msg => !a.discards msg).map Applied.message := by
    simp [HandsOver, Journal.due, hlater hbefore]
  have hfails : FailsEmpty st e ↔
      ((∀ snapshot, a ≠ .ok snapshot) → st.2.before = []) := by
    simp [FailsEmpty, htakes, hbuffered hbefore]
  rw [hover, hfails, hsession]
  cases a with
  | ok snapshot =>
    refine iff_of_true ?_ fun hno => absurd rfl (hno snapshot)
    have hkeeps := funext (keeps_eq_not_discards snapshot)
    rw [Session.onAnswer_ok, happlied, Session.kept, hbuffered hbefore, hkeeps]
    rfl
  | badJson | failed =>
    -- the buffer stays where it is
    simp [Session.onAnswer, happlied, RestAnswer.applied, RestAnswer.discards, eq_comm]

/-- The next state is as observed as this one, and hands over unless a request fails on a full
buffer. -/
theorem observe_step (hI : Observed st) (hP : HandsOver st) :
    Observed (observe cfg filter st e) ∧
      (HandsOver (observe cfg filter st e) ↔ FailsEmpty st e) := by
  have heffect : Conn.Effect cfg filter st.1.1 st.1.2 e (Conn.step cfg filter st.1 e) :=
    Conn.step_effect st.1 e
  have hobserve : observe cfg filter st e
      = (Conn.step cfg filter st.1 e, st.2.record st.1.1 e) := rfl
  rw [hobserve]
  generalize Conn.step cfg filter st.1 e = st' at heffect ⊢
  have hvacuous : st.1.1.takes e = none → FailsEmpty st e := by
    intro hnone a ha
    exact absurd (hnone.symm.trans ha) (by simp)
  cases heffect with
  | @quiet _ conn' hreads htakes hsession _ =>
    rw [record_quiet hreads htakes]
    constructor
    · constructor
      · exact hI.answered.trans (congrArg Session.snapshotApplied hsession.symm)
      · rw [hsession]
        exact hI.buffered
      · rw [hsession]
        exact hI.later
    · refine iff_of_true ?_ (hvacuous htakes)
      exact (congrArg Session.applied hsession).trans hP
  | @message stamp msg conn' hreads hsession =>
    have htakes : st.1.1.takes (.poll stamp) = none := rfl
    obtain ⟨hobserved, hover⟩ := observe_message hI hP hreads hsession
    exact ⟨hobserved, iff_of_true hover (hvacuous htakes)⟩
  | @answer stamp a conn' htakes hsession => exact observe_answer hI hP rfl htakes hsession

end Handover

/-- **When no diff is lost at the snapshot step.** In every session and for every interleaving of
the frames with the answer of the REST request, each diff that is read before the answer is applied
once and in order, or discarded by a snapshot that is not older, and no later one is applied before
it, if and only if a request that fails finds the buffer empty. -/
theorem hands_over_iff (cfg : Config) (filter : Option LobFilter) (w : World)
    (es : List (ConnEvent client)) :
    Trace.Always (observe cfg filter) HandsOver ((Conn.new client cfg, w), {}) es ↔
      Trace.EachStep (observe cfg filter) FailsEmpty ((Conn.new client cfg, w), {}) es :=
  Trace.always_iff_eachStep (H := fun _ => True) (I := Observed)
    ⟨rfl, fun _ => rfl, fun _ => rfl⟩ rfl (fun _ _ => trivial)
    (fun _ _ hI hP _ => (observe_step hI hP).1) (fun _ _ hI hP _ => (observe_step hI hP).2)

/-- A diff is buffered, the request fails, and another diff is read. -/
def failedRequestRun : List (ConnEvent client) :=
  [.arrive (.text "" (some (diffMsg "5" [("100", "1")] []))), .poll { now := 0 },
    .arrive (.text "" (some subscribedMsg)), .poll { now := 0 }, .answer { now := 0 } .failed,
    .arrive (.text "" (some (diffMsg "6" [("99", "1")] []))), .poll { now := 0 }]

/-- Only the second diff is applied. -/
theorem buffered_diff_lost :
    ¬ Trace.Always (observe bitstampConfig none) HandsOver
      ((Conn.new client bitstampConfig, {}), {}) failedRequestRun := by
  intro h
  exact absurd (congrArg List.length h.last) (by decide +kernel)

end Bitstamp
end Cryptomeria
