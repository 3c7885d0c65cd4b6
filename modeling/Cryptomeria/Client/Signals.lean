import Cryptomeria.Client.Venue

/-!
# Signals between the polls

In `Client.Run` a signal is there when `wait_for_shutdown_signal` or `signal_sleep` completes. Here
it comes from outside at any moment, and whether one of the two completes depends on the listeners.
A listener sees the signals that are delivered after it was created, and keeps one until it is
polled. `run` has one listener of its own, for SIGTERM, and only the sleeps poll it. The others
belong to one evaluation of a `select!`: they are created when their branch is first polled and
dropped when another branch completes.

So between two evaluations of the read loop's `select!` nobody listens that the loop would ask.
`Watched.Kept` says that a delivered signal is pending at a listener that the client asks next, or
has ended the client; `keeps_iff` says in which runs that is so in every state.
-/

set_option autoImplicit false

namespace Cryptomeria

inductive Signal where
  | sigint
  | sigterm
deriving DecidableEq

/-- The branches of the `select!` in `signal_sleep`. -/
inductive SleepBranch where
  | timer
  | ctrlC
  | sigterm
deriving DecidableEq

/-- A poll of a `select!` begins at a random branch and goes around. -/
def SleepBranch.order : SleepBranch → List SleepBranch
  | timer => [timer, ctrlC, sigterm]
  | ctrlC => [ctrlC, sigterm, timer]
  | sigterm => [sigterm, timer, ctrlC]

/-- A client with its listeners. -/
structure Watched (c : ClientSpec) where
  client : Client c
  /-- A SIGTERM is pending at the listener of `run`. -/
  sigterm : Bool := false
  /-- The listeners of the read loop's `select!`, once they are created: a signal is pending. -/
  select : Option Bool := none
  /-- The same of the SIGINT listener in a sleep. -/
  sleep : Option Bool := none
  /-- The read loop has taken a frame, and its handler is at work. -/
  busy : Bool := false
  /-- History: the read loop has been polled. -/
  polled : Bool := false
  /-- History: a signal has been delivered since then. -/
  signalled : Bool := false

inductive WatchedEvent (c : ClientSpec) where
  /-- What the client gets from the server. -/
  | client (e : Event c)
  | deliver (s : Signal)
  /-- The `select!` of the read loop is polled. -/
  | pollRead (signalFirst : Bool)
  /-- The handler is through with the frame, up to a REST request. -/
  | handled (stamp : Stamp)
  /-- The `select!` of a sleep is polled. -/
  | pollSleep (elapsed : Bool) (first : SleepBranch)

/-- The event comes from the server; the others are what the polls make of it. -/
def Event.external {c : ClientSpec} : Event c → Bool
  | .link (.poll _) | .signal | .woken _ => false
  | _ => true

namespace Watched

variable {c : ClientSpec}

def start (c : ClientSpec) (cfg : Config) (w : World) : Watched c :=
  { client := Client.start c cfg w }

/-- The handler of a frame has not come to its end. -/
def working (st : Watched c) : Bool := st.busy || c.awaiting st.client.conn.session

/-- The read loop is where it polls its `select!`. -/
def atSelect (st : Watched c) : Bool := st.client.phase = .reading && !st.working

/-- `read.next()` is ready. -/
def frameReady (st : Watched c) : Bool := st.client.conn.ready && !st.client.conn.socket.isEmpty

/-- The read branch completes, and the other one is dropped. -/
def take (st : Watched c) : Watched c := { st with busy := true, select := none }

def sleepReady (st : Watched c) (elapsed : Bool) : SleepBranch → Bool
  | .timer => elapsed
  | .ctrlC => st.sleep = some true
  | .sigterm => st.sigterm

variable (cfg : Config)

/-- The read loop's `select!`: a frame, the signal, or neither. -/
def pollRead (signalFirst : Bool) (st : Watched c) : Watched c :=
  let st := { st with polled := true }
  if !signalFirst && st.frameReady then st.take
  else if st.select = some true then
    { st with client := st.client.step cfg .signal, select := none }
  else if st.frameReady then st.take
  else { st with select := some (st.select.getD false) }

/-- The `select!` of `signal_sleep`: the first branch that is ready, or none. -/
def pollSleep (elapsed : Bool) (first : SleepBranch) (st : Watched c) : Watched c :=
  match first.order.find? (st.sleepReady elapsed) with
  | some .timer => { st with client := st.client.step cfg (.woken false), sleep := none }
  | some .ctrlC => { st with client := st.client.step cfg (.woken true), sleep := none }
  | some .sigterm =>
    { st with client := st.client.step cfg (.woken true), sleep := none, sigterm := false }
  | none => { st with sleep := some (st.sleep.getD false) }

/-- A signal reaches the listeners that there are. -/
def deliver (s : Signal) (st : Watched c) : Watched c :=
  { st with
    sigterm := st.sigterm || s = .sigterm
    select := st.select.map fun _ => true
    sleep := if s = .sigint then st.sleep.map fun _ => true else st.sleep
    signalled := st.signalled || st.polled }

def step (st : Watched c) : WatchedEvent c → Watched c
  | .client e => if e.external then { st with client := st.client.step cfg e } else st
  | .deliver s => st.deliver s
  | .pollRead signalFirst => if st.atSelect then st.pollRead cfg signalFirst else st
  | .handled stamp =>
    if st.busy then
      { st with client := st.client.step cfg (.link (.poll stamp)), busy := false }
    else st
  | .pollSleep elapsed first =>
    match st.client.phase with
    | .sleeping _ _ => st.pollSleep cfg elapsed first
    | _ => st

/-! ## The client of a watched client -/

/-- Every step is a step of the client or none at all. -/
theorem client_step (st : Watched c) (e : WatchedEvent c) :
    (st.step cfg e).client = st.client ∨
      ∃ e', (st.step cfg e).client = st.client.step cfg e' := by
  cases e with
  | client e =>
    simp only [step]
    split
    · exact Or.inr ⟨e, rfl⟩
    · exact Or.inl rfl
  | deliver s => exact Or.inl rfl
  | pollRead signalFirst =>
    simp only [step, pollRead]
    split
    · split
      · exact Or.inl rfl
      · split
        · exact Or.inr ⟨_, rfl⟩
        · split <;> exact Or.inl rfl
    · exact Or.inl rfl
  | handled stamp =>
    simp only [step]
    split
    · exact Or.inr ⟨_, rfl⟩
    · exact Or.inl rfl
  | pollSleep elapsed first =>
    simp only [step]
    split
    · unfold pollSleep
      split
      · exact Or.inr ⟨_, rfl⟩
      · exact Or.inr ⟨_, rfl⟩
      · exact Or.inr ⟨_, rfl⟩
      · exact Or.inl rfl
    · exact Or.inl rfl

/-- What a watched client does is a run of the client. -/
theorem exists_client_run (w : World) (es : List (WatchedEvent c)) :
    ∃ es', (es.foldl (step cfg) (start c cfg w)).client = Client.run c cfg w es' := by
  induction es using List.reverseRecOn with
  | nil => exact ⟨[], rfl⟩
  | append_singleton es e ih =>
    obtain ⟨es', hrun⟩ := ih
    rw [List.foldl_concat]
    rcases client_step cfg (es.foldl (step cfg) (start c cfg w)) e with hsame | ⟨e', hstep⟩
    · exact ⟨es', hsame.trans hrun⟩
    · refine ⟨es' ++ [e'], ?_⟩
      rw [hstep, hrun, Client.run, Client.run, List.foldl_concat]

/-! ## What becomes of a signal -/

/-- `run` has ended. -/
def Ended (st : Watched c) : Prop := st.client.phase = .returned ∨ st.client.phase = .panicked

/-- A signal is pending where the client looks next, and there it ends the client. -/
def Pending (st : Watched c) : Prop :=
  (st.atSelect = true ∧ st.select = some true) ∨
    ∃ delay, st.client.phase = .sleeping .disconnected delay ∧
      (st.sleep = some true ∨ st.sigterm = true)

/-- A signal that was delivered is pending, or it has ended the client. -/
def Kept (st : Watched c) : Prop := st.signalled = true → st.Ended ∨ st.Pending

/-- There is a listener for the signal where the client looks next. In a sleep after a disconnect
that may also be a listener which has an earlier signal. -/
def Attentive (s : Signal) (st : Watched c) : Prop :=
  (st.atSelect = true ∧ st.select.isSome = true) ∨
    ∃ delay, st.client.phase = .sleeping .disconnected delay ∧
      (s = .sigterm ∨ st.sleep.isSome = true ∨ st.sigterm = true)

/-- The first signal is delivered to a listener, and no poll after it prefers something else. -/
def Heeds (st : Watched c) : WatchedEvent c → Prop
  | .deliver s => st.polled = true → st.signalled = false → st.Ended ∨ st.Attentive s
  | .pollRead signalFirst =>
    st.signalled = true → st.atSelect = true → signalFirst = true ∨ st.frameReady = false
  | .pollSleep elapsed first =>
    st.signalled = true → (∃ site delay, st.client.phase = .sleeping site delay) →
      first.order.find? (st.sleepReady elapsed) ≠ some .timer
  | .client _ | .handled _ => True

variable {cfg} {st : Watched c}

theorem atSelect_iff : st.atSelect = true ↔ st.client.phase = .reading ∧ st.busy = false ∧
    c.awaiting st.client.conn.session = false := by
  simp [atSelect, working]

theorem kept_of_not_signalled (h : st.signalled = false) : st.Kept := by
  intro hsignalled
  exact absurd (h.symm.trans hsignalled) (by simp)

theorem not_kept (hsignalled : st.signalled = true) (hended : ¬ st.Ended)
    (hpending : ¬ st.Pending) : ¬ st.Kept := by
  intro hkept
  rcases hkept hsignalled with h | h
  · exact hended h
  · exact hpending h

theorem pending_deliver_iff (s : Signal) : (st.deliver s).Pending ↔ st.Attentive s := by
  refine or_congr ?_ (exists_congr fun delay => and_congr_right fun _ => ?_)
  · refine and_congr_right fun _ => ?_
    cases hselect : st.select <;> simp [deliver, hselect]
  · cases s with
    | sigint => cases hsleep : st.sleep <;> simp [deliver, hsleep]
    | sigterm => simp [deliver]

theorem Pending.deliver (h : st.Pending) (s : Signal) : (st.deliver s).Pending := by
  rw [pending_deliver_iff]
  rcases h with ⟨hat, hselect⟩ | ⟨delay, hphase, hsleep | hsigterm⟩
  · exact Or.inl ⟨hat, by simp [hselect]⟩
  · exact Or.inr ⟨delay, hphase, Or.inr (Or.inl (by simp [hsleep]))⟩
  · exact Or.inr ⟨delay, hphase, Or.inr (Or.inr hsigterm)⟩

theorem kept_deliver_iff (h : st.Kept) (s : Signal) :
    (st.deliver s).Kept ↔ Heeds st (.deliver s) := by
  cases hsignalled : st.signalled with
  | true =>
    refine iff_of_true (fun _ => ?_) fun _ hno => absurd (hno.symm.trans hsignalled) (by simp)
    exact (h hsignalled).imp id fun hpending => hpending.deliver s
  | false =>
    cases hpolled : st.polled with
    | false =>
      refine iff_of_true (kept_of_not_signalled ?_) ?_
      · simp [deliver, hsignalled, hpolled]
      · exact fun hyes => absurd (hpolled.symm.trans hyes) (by simp)
    | true =>
      have hafter : (st.deliver s).signalled = true := by simp [deliver, hsignalled, hpolled]
      constructor
      · exact fun hkept _ _ => (hkept hafter).imp id (pending_deliver_iff s).mp
      · exact fun hheeds _ => (hheeds hpolled hsignalled).imp id (pending_deliver_iff s).mpr

/-! ## Events from the server -/

theorem ended_client_step (h : st.Ended) (e : Event c) : st.client.step cfg e = st.client := by
  unfold Client.step
  rcases h with h | h <;> rw [h]

/-- While the read loop waits, the server can only add frames to the socket. -/
theorem atSelect_client_step (cfg : Config) (h : st.atSelect = true) {e : Event c}
    (he : e.external = true) :
    (st.client.step cfg e).phase = .reading ∧
      c.awaiting (st.client.step cfg e).conn.session = false := by
  obtain ⟨hphase, -, hidle⟩ := atSelect_iff.mp h
  unfold Client.step
  rw [hphase]
  cases e with
  | link e =>
    cases e with
    | arrive item => exact ⟨hphase, hidle⟩
    | poll stamp => simp [Event.external] at he
    | answer stamp a => simp [Client.read, Conn.step, hidle, hphase]
  | signal => simp [Event.external] at he
  | connected | connectFailed | sent | sendFailed | woken => exact ⟨hphase, hidle⟩

theorem sleeping_client_step {site : SleepSite} {delay : ℕ}
    (h : st.client.phase = .sleeping site delay) {e : Event c}
    (he : ∀ signal, e ≠ .woken signal) : st.client.step cfg e = st.client := by
  unfold Client.step
  rw [h]
  cases e with
  | woken signal => exact absurd rfl (he signal)
  | connected | connectFailed | sent | sendFailed | link | signal => rfl

theorem Kept.client_step (h : st.Kept) {e : Event c} (he : e.external = true) :
    ({ st with client := st.client.step cfg e } : Watched c).Kept := by
  intro hsignalled
  rcases h hsignalled with hended | ⟨hat, hselect⟩ | ⟨delay, hphase, hpending⟩
  · left
    rw [ended_client_step hended]
    exact hended
  · right
    left
    obtain ⟨hreading, hidle⟩ := atSelect_client_step cfg hat he
    exact ⟨atSelect_iff.mpr ⟨hreading, (atSelect_iff.mp hat).2.1, hidle⟩, hselect⟩
  · right
    right
    rw [sleeping_client_step hphase]
    · exact ⟨delay, hphase, hpending⟩
    · rintro signal rfl
      simp [Event.external] at he

/-! ## Polls -/

/-- A handler at work leaves no pending signal that the loop would look at. -/
theorem Kept.handled (h : st.Kept) (stamp : Stamp) : (st.step cfg (.handled stamp)).Kept := by
  simp only [step]
  split
  · rename_i hbusy
    intro hsignalled
    rcases h hsignalled with hended | ⟨hat, -⟩ | ⟨delay, hphase, hpending⟩
    · left
      rw [ended_client_step hended]
      exact hended
    -- a handler at work is not at the `select!`
    · have hidle := (atSelect_iff.mp hat).2.1
      exact absurd (hidle.symm.trans hbusy) (by simp)
    · right
      right
      rw [sleeping_client_step hphase (by simp)]
      exact ⟨delay, hphase, hpending⟩
  · exact h

/-- At the `select!` the signal ends the client, if it is looked at. -/
theorem pollRead_returns (hat : st.atSelect = true) (hselect : st.select = some true)
    {signalFirst : Bool} (hfirst : signalFirst = true ∨ st.frameReady = false) :
    (st.pollRead cfg signalFirst).client.phase = .returned := by
  obtain ⟨hphase, -, hidle⟩ := atSelect_iff.mp hat
  have hsignal : (st.client.step cfg .signal).phase = .returned := by
    simp [Client.step, hphase, hidle]
  have hread : ¬ (!signalFirst && ({ st with polled := true } : Watched c).frameReady) = true := by
    have hpolled : ({ st with polled := true } : Watched c).frameReady = st.frameReady := rfl
    rcases hfirst with h | h <;> simp [hpolled, h]
  unfold pollRead
  dsimp only
  rw [if_neg hread, if_pos hselect]
  exact hsignal

theorem kept_pollRead_iff (h : st.Kept) (signalFirst : Bool) :
    (st.step cfg (.pollRead signalFirst)).Kept ↔ Heeds st (.pollRead signalFirst) := by
  simp only [step]
  split
  · rename_i hat
    obtain ⟨hphase, -, -⟩ := atSelect_iff.mp hat
    have hsame : (st.pollRead cfg signalFirst).signalled = st.signalled := by
      simp only [pollRead]
      split
      · rfl
      · split
        · rfl
        · split <;> rfl
    cases hsignalled : st.signalled with
    | false =>
      refine iff_of_true (kept_of_not_signalled (hsame.trans hsignalled)) ?_
      exact fun hyes => absurd (hsignalled.symm.trans hyes) (by simp)
    | true =>
      -- a signal that is kept while the loop reads can only wait in the `select!`
      have hselect : st.select = some true := by
        rcases h hsignalled with hended | ⟨-, hselect⟩ | ⟨delay, hsleeping, -⟩
        · rcases hended with h | h <;> exact absurd (hphase.symm.trans h) (by simp)
        · exact hselect
        · exact absurd (hphase.symm.trans hsleeping) (by simp)
      by_cases hfirst : signalFirst = true ∨ st.frameReady = false
      · refine iff_of_true (fun _ => ?_) fun _ _ => hfirst
        exact Or.inl (Or.inl (pollRead_returns hat hselect hfirst))
      · refine iff_of_false ?_ fun hheeds => hfirst (hheeds hsignalled hat)
        rw [not_or, Bool.not_eq_true, Bool.not_eq_false] at hfirst
        -- the frame is taken, and the listeners are dropped with the signal
        have htake : st.pollRead cfg signalFirst
            = ({ st with polled := true } : Watched c).take := by
          have hpolled : ({ st with polled := true } : Watched c).frameReady = true := hfirst.2
          simp only [pollRead, hpolled, hfirst.1, Bool.not_false, Bool.and_self, if_true]
        rw [htake]
        refine not_kept hsignalled ?_ ?_
        · rintro (h | h) <;> exact absurd (hphase.symm.trans h) (by simp)
        · rintro (⟨hat', -⟩ | ⟨delay, hsleeping, -⟩)
          · simp [atSelect, working, take] at hat'
          · exact absurd (hphase.symm.trans hsleeping) (by simp)
  · rename_i hat
    exact iff_of_true h fun _ hyes => absurd hyes hat

theorem kept_pollSleep_iff (h : st.Kept) (elapsed : Bool) (first : SleepBranch) :
    (st.step cfg (.pollSleep elapsed first)).Kept ↔ Heeds st (.pollSleep elapsed first) := by
  simp only [step]
  split
  · rename_i site delay hphase
    cases hsignalled : st.signalled with
    | false =>
      refine iff_of_true (kept_of_not_signalled ?_) ?_
      · unfold pollSleep
        split <;> exact hsignalled
      · exact fun hyes => absurd (hsignalled.symm.trans hyes) (by simp)
    | true =>
      -- the same for a sleep, and only the one after a disconnect obeys
      have hpending : site = .disconnected ∧ (st.sleep = some true ∨ st.sigterm = true) := by
        rcases h hsignalled with hended | ⟨hat, -⟩ | ⟨delay', hsleeping, hpending⟩
        · rcases hended with h | h <;> exact absurd (hphase.symm.trans h) (by simp)
        · exact absurd (hphase.symm.trans (atSelect_iff.mp hat).1) (by simp)
        · simp only [hphase, Phase.sleeping.injEq] at hsleeping
          exact ⟨hsleeping.1, hpending⟩
      obtain ⟨rfl, hpending⟩ := hpending
      have hwoken : (st.client.step cfg (.woken true)).phase = .returned := by
        simp [Client.step, hphase, Client.wake]
      have hheeds : Heeds st (.pollSleep elapsed first) ↔
          first.order.find? (st.sleepReady elapsed) ≠ some .timer :=
        ⟨fun hh => hh hsignalled ⟨_, _, hphase⟩, fun hne _ _ => hne⟩
      rw [hheeds]
      unfold pollSleep
      cases hfind : first.order.find? (st.sleepReady elapsed) with
      | none =>
        refine iff_of_true (fun _ => Or.inr (Or.inr ⟨delay, hphase, ?_⟩)) (by simp)
        exact hpending.imp (fun hsleep => by simp [hsleep]) id
      | some branch =>
        cases branch with
        | ctrlC => exact iff_of_true (fun _ => Or.inl (Or.inl hwoken)) (by simp)
        | sigterm => exact iff_of_true (fun _ => Or.inl (Or.inl hwoken)) (by simp)
        | timer =>
          have hconnecting : (st.client.step cfg (.woken false)).phase = .connecting := by
            simp [Client.step, hphase, Client.wake, Client.connect]
          refine iff_of_false (not_kept hsignalled ?_ ?_) (by simp)
          · rintro (h | h) <;> exact absurd (hconnecting.symm.trans h) (by simp)
          · rintro (⟨hat, -⟩ | ⟨delay', hsleeping, -⟩)
            · exact absurd (hconnecting.symm.trans (atSelect_iff.mp hat).1) (by simp)
            · exact absurd (hconnecting.symm.trans hsleeping) (by simp)
  · rename_i hawake
    exact iff_of_true h fun _ hsleeping => absurd hsleeping.choose_spec.choose_spec (hawake _ _)

/-- A signal that is kept so far is kept by the next event exactly when the event heeds it. -/
theorem kept_step_iff (h : st.Kept) (e : WatchedEvent c) :
    (st.step cfg e).Kept ↔ st.Heeds e := by
  cases e with
  | client e =>
    refine iff_of_true ?_ trivial
    simp only [step]
    split
    · rename_i he
      exact h.client_step he
    · exact h
  | deliver s => exact kept_deliver_iff h s
  | pollRead signalFirst => exact kept_pollRead_iff h signalFirst
  | handled stamp => exact iff_of_true (h.handled stamp) trivial
  | pollSleep elapsed first => exact kept_pollSleep_iff h elapsed first

/-- No signal is lost in a run exactly when all its events heed the signals. -/
theorem keeps_iff (cfg : Config) (w : World) (es : List (WatchedEvent c)) :
    Trace.Always (step cfg) Kept (start c cfg w) es ↔
      Trace.EachStep (step cfg) Heeds (start c cfg w) es :=
  Trace.always_iff_eachStep (H := fun _ => True) (I := fun _ => True) trivial
    (kept_of_not_signalled rfl) (fun _ _ => trivial) (fun _ _ _ _ _ => trivial)
    (fun _ _ _ h _ => kept_step_iff h _)

/-- After a signal the client leaves the read loop when it is polled again, and takes no frame. -/
def Leaves (cfg : Config) (st : Watched c) (e : WatchedEvent c) : Prop :=
  st.signalled = true → st.atSelect = true → ∀ signalFirst, e = .pollRead signalFirst →
    (st.step cfg e).client.phase ≠ .reading

theorem Kept.leaves (h : st.Kept) {e : WatchedEvent c} (hheeds : st.Heeds e) :
    st.Leaves cfg e := by
  rintro hsignalled hat signalFirst rfl
  have hphase := (atSelect_iff.mp hat).1
  have hselect : st.select = some true := by
    rcases h hsignalled with hended | ⟨-, hselect⟩ | ⟨delay, hsleeping, -⟩
    · rcases hended with h | h <;> exact absurd (hphase.symm.trans h) (by simp)
    · exact hselect
    · exact absurd (hphase.symm.trans hsleeping) (by simp)
  simp only [step, if_pos hat]
  rw [pollRead_returns hat hselect (hheeds hsignalled hat)]
  simp

end Watched

/-- **When a signal ends the read loop.** In every run in which the first signal meets a listener
and no poll after it prefers something else, the read loop takes no frame after the signal, and it
is left when it is polled again. -/
theorem Venue.leaves_of_heeds (x : Venue) (rfc3339 : String → Option ℤ) (cfg : Config)
    (w : World) (es : List (WatchedEvent (x.client rfc3339)))
    (h : Trace.EachStep (Watched.step cfg) Watched.Heeds (Watched.start _ cfg w) es) :
    Trace.EachStep (Watched.step cfg) (Watched.Leaves cfg) (Watched.start _ cfg w) es := by
  have hkept := (Watched.keeps_iff cfg w es).mpr h
  intro pre e hpre
  exact (hkept pre ((List.prefix_append pre [e]).trans hpre)).leaves (h pre e hpre)

/-- A connection of an OKX client up to the first poll of its read loop. -/
def okxConnected : List (WatchedEvent (Venue.okx.client fun _ => none)) :=
  [.client (.connected { now := 0 }), .client (.sent { now := 0 }), .client (.sent { now := 0 }),
    .pollRead false]

/-- A signal comes while the read loop waits, and a ping after it. -/
def signalWhileWaiting : List (WatchedEvent (Venue.okx.client fun _ => none)) :=
  okxConnected ++ [.deliver .sigint, .client (.link (.arrive .ping))]

theorem Venue.leaves_of_heeds_waiting :
    ((signalWhileWaiting.foldl (Watched.step okxConfig) (Watched.start _ okxConfig {})).step
      okxConfig (.pollRead true)).client.phase ≠ .reading := by
  have hheeds : Trace.EachStep (Watched.step okxConfig) Watched.Heeds
      (Watched.start _ okxConfig {}) (signalWhileWaiting ++ [.pollRead true]) := by
    simp only [signalWhileWaiting, okxConnected, List.cons_append, List.nil_append,
      Trace.eachStep_cons, Trace.eachStep_nil, and_true]
    refine ⟨trivial, trivial, trivial, ?_, ?_, trivial, ?_⟩
    · exact fun _ _ => Or.inr rfl
    · exact fun _ _ => Or.inr (Or.inl ⟨rfl, rfl⟩)
    · exact fun _ _ => Or.inl rfl
  exact Venue.leaves_of_heeds .okx _ okxConfig {} _ hheeds signalWhileWaiting (.pollRead true)
    List.prefix_rfl rfl rfl true rfl

/-- A signal is delivered while the handler of a ping is at work. Another is delivered to a waiting
read loop, which finds a ping first. -/
theorem Venue.signal_lost :
    ¬ Trace.EachStep (Watched.step okxConfig) (Watched.Leaves okxConfig)
        (Watched.start (Venue.okx.client fun _ => none) okxConfig {})
        (okxConnected ++ [.client (.link (.arrive .ping)), .pollRead true, .deliver .sigint,
          .handled { now := 1 }, .pollRead true]) ∧
      ¬ Trace.EachStep (Watched.step okxConfig) (Watched.Leaves okxConfig)
        (Watched.start (Venue.okx.client fun _ => none) okxConfig {})
        (okxConnected ++ [.client (.link (.arrive .ping)), .deliver .sigterm,
          .pollRead false]) := by
  constructor
  · intro h
    exact h (okxConnected ++ [.client (.link (.arrive .ping)), .pollRead true, .deliver .sigint,
      .handled { now := 1 }]) (.pollRead true) List.prefix_rfl rfl rfl true rfl rfl
  · intro h
    exact h (okxConnected ++ [.client (.link (.arrive .ping)), .deliver .sigterm])
      (.pollRead false) List.prefix_rfl rfl rfl false rfl rfl

end Cryptomeria
