import Cryptomeria.Client.Backoff

/-!
# What the exchange sees of a client

The connects and the subscriptions of a client, with the waits between them, follow a protocol: a
connect, then the two subscriptions in their order, and after any failure a wait before the next
connect. Nothing is sent twice on a connection, and nothing after the wait that a signal ended
(`Venue.calls_run`). So a client does not hammer an exchange that fails: every connect but the first
is paid for with at least a second of waiting, or with a signal (`Venue.connects_paced`).
-/

set_option autoImplicit false

namespace Cryptomeria

/-! ## The protocol -/

/-- How far a client has come. -/
inductive Stage where
  /-- A connect is due. -/
  | due
  | connecting
  /-- The first subscription is sent, or both are. -/
  | subscribed (both : Bool)
  | stopped
deriving DecidableEq

/-- The calls that a client may make, with these subscriptions. -/
inductive Stage.Next (subscribeMsgs : Value × Value) : Stage → Call → Stage → Prop
  | connect : Next subscribeMsgs .due .connect .connecting
  | first : Next subscribeMsgs .connecting (.send subscribeMsgs.1) (.subscribed false)
  | second : Next subscribeMsgs (.subscribed false) (.send subscribeMsgs.2) (.subscribed true)
  | connectError (delay : ℕ) (signal : Bool) :
      Next subscribeMsgs .connecting (.slept .connectError delay signal) .due
  | subscribeError (both : Bool) (delay : ℕ) (signal : Bool) :
      Next subscribeMsgs (.subscribed both) (.slept .subscribeError delay signal) .due
  | disconnected (delay : ℕ) :
      Next subscribeMsgs (.subscribed true) (.slept .disconnected delay false) .due
  | stopped (delay : ℕ) :
      Next subscribeMsgs (.subscribed true) (.slept .disconnected delay true) .stopped

/-- The stages that go with a phase of `run`. -/
inductive Phase.At : Phase → Stage → Prop
  | connecting : At .connecting .connecting
  | subscribing (second : Bool) : At (.subscribing second) (.subscribed second)
  | reading : At .reading (.subscribed true)
  | connectError (delay : ℕ) : At (.sleeping .connectError delay) .connecting
  | subscribeError (both : Bool) (delay : ℕ) :
      At (.sleeping .subscribeError delay) (.subscribed both)
  | disconnected (delay : ℕ) : At (.sleeping .disconnected delay) (.subscribed true)
  | returned : At .returned (.subscribed true)
  | stopped : At .returned .stopped
  | panicked : At .panicked (.subscribed true)

namespace Client

variable {c : ClientSpec} {cfg : Config} {st : Client c}

/-- The calls follow the protocol, up to the stage of the phase. -/
def Follows (cfg : Config) (st : Client c) : Prop :=
  ∃ stage, Trace.Path (Stage.Next (c.subscribeMsgs cfg)) .due st.calls stage ∧ st.phase.At stage

theorem follows_start (c : ClientSpec) (cfg : Config) (w : World) : (start c cfg w).Follows cfg :=
  ⟨.connecting, .concat .nil .connect, .connecting⟩

/-- The read loop makes no calls; when it is left, a wait after a disconnect comes, or nothing. -/
theorem at_read (hphase : st.phase = .reading) (e : ConnEvent c) :
    (st.read cfg e).phase.At (.subscribed true) := by
  have hreading : st.phase.At (.subscribed true) := hphase ▸ .reading
  unfold read
  cases e with
  | arrive item => exact hreading
  | answer stamp a =>
    dsimp only
    split
    · exact .returned
    · exact hreading
  | poll stamp =>
    dsimp only
    split
    · exact .panicked
    · split
      · exact .returned
      · exact .disconnected _
    · split
      · exact .returned
      · exact hreading

theorem follows_step (h : st.Follows cfg) (e : Event c) : (st.step cfg e).Follows cfg := by
  obtain ⟨stage, hpath, hat⟩ := h
  unfold step
  split
  · rename_i hphase
    rw [hphase] at hat
    cases hat
    exact ⟨_, hpath.concat .first, .subscribing false⟩
  · rename_i hphase
    rw [hphase] at hat
    cases hat
    exact ⟨_, hpath, .connectError _⟩
  · rename_i hphase
    rw [hphase] at hat
    cases hat
    exact ⟨_, hpath.concat .second, .subscribing true⟩
  · rename_i hphase
    rw [hphase] at hat
    cases hat
    exact ⟨_, hpath, .reading⟩
  · rename_i hphase
    rw [hphase] at hat
    cases hat
    exact ⟨_, hpath, .subscribeError _ _⟩
  · rename_i second item hphase
    have hphase' : (st.read cfg (.arrive item)).phase = st.phase := rfl
    exact ⟨stage, hpath, hphase' ▸ hat⟩
  · rename_i hphase
    rw [hphase] at hat
    cases hat
    refine ⟨.subscribed true, ?_, at_read hphase _⟩
    rw [read_calls]
    exact hpath
  · rename_i hphase
    rw [hphase] at hat
    cases hat
    split
    · exact ⟨_, hpath, hphase ▸ .reading⟩
    · exact ⟨_, hpath, .returned⟩
  · rename_i site delay signal hphase
    rw [hphase] at hat
    unfold wake
    cases site with
    | connectError =>
      cases hat
      exact ⟨_, (hpath.concat (.connectError delay signal)).concat .connect, .connecting⟩
    | subscribeError =>
      cases hat
      exact ⟨_, (hpath.concat (.subscribeError _ delay signal)).concat .connect, .connecting⟩
    | disconnected =>
      cases hat
      cases signal with
      | false => exact ⟨_, (hpath.concat (.disconnected delay)).concat .connect, .connecting⟩
      | true => exact ⟨_, hpath.concat (.stopped delay), .stopped⟩
  · exact ⟨stage, hpath, hat⟩

theorem follows_run (c : ClientSpec) (cfg : Config) (w : World) (es : List (Event c)) :
    (run c cfg w es).Follows cfg :=
  (Trace.always_of_inductive (I := Follows cfg) (H := fun _ => True) (follows_start c cfg w)
    (fun _ _ => trivial) fun _ e h _ => follows_step h e).last

end Client

/-- **The calls of a run.** In every run of a client the calls that the outside sees are those of a
path of the protocol, and the client waits where the protocol has come to. -/
theorem Venue.calls_run (x : Venue) (rfc3339 : String → Option ℤ) (cfg : Config) (w : World)
    (es : List (Event (x.client rfc3339))) :
    ∃ stage, Trace.Path (Stage.Next ((x.client rfc3339).subscribeMsgs cfg)) .due
        (Client.run _ cfg w es).calls stage ∧ (Client.run _ cfg w es).phase.At stage :=
  Client.follows_run _ cfg w es

/-! ## The pace of the connects -/

namespace Call

def isConnect : Call → Bool
  | connect => true
  | _ => false

/-- What a wait has taken; one that a signal ended does not count. -/
def waited : Call → ℕ
  | slept _ delay false => delay
  | _ => 0

/-- A wait is one of a second or more. -/
def Long : Call → Prop
  | slept _ delay _ => 1000 ≤ delay
  | _ => True

end Call

/-- A second for every connect but the first: a wait or a signal pays for it. -/
theorem Stage.paid {subscribeMsgs : Value × Value} {stage : Stage} {calls : List Call}
    (h : Trace.Path (Next subscribeMsgs) .due calls stage) (hlong : ∀ call ∈ calls, call.Long) :
    1000 * calls.countP Call.isConnect
      ≤ 1000 + (calls.map Call.waited).sum + 1000 * calls.countP Call.consumedSignal := by
  have hspent := h.spent_le (H := Call.Long) (fun stage => if stage = .due then 1000 else 0)
    (fun call => if call.isConnect then 1000 else 0)
    (fun call => call.waited + if call.consumedSignal then 1000 else 0) ?_ hlong
  · have hcount : ∀ p : Call → Bool, (calls.map fun call => if p call then 1000 else 0).sum
        = 1000 * calls.countP p := by
      intro p
      clear hspent hlong h
      induction calls with
      | nil => rfl
      | cons call calls ih =>
        rw [List.map_cons, List.sum_cons, ih, List.countP_cons]
        split <;> omega
    rw [List.sum_map_add, hcount, hcount] at hspent
    simp only [if_true] at hspent
    omega
  · intro stage call stage' hlong hnext
    cases hnext with
    | connect | first | second => simp [Call.isConnect]
    | connectError delay signal | subscribeError both delay signal =>
      cases signal with
      | false => simpa [Call.isConnect, Call.waited, Call.consumedSignal, Call.Long] using hlong
      | true => simp [Call.isConnect, Call.waited, Call.consumedSignal]
    | disconnected delay =>
      simpa [Call.isConnect, Call.waited, Call.consumedSignal, Call.Long] using hlong
    | stopped delay => simp [Call.isConnect]

namespace Client

variable {c : ClientSpec} {cfg : Config}

/-- What a step adds to the calls: at most one wait, and then the one that the phase is about. -/
theorem calls_step (st : Client c) (e : Event c) :
    ∃ new, (st.step cfg e).calls = st.calls ++ new ∧
      waitsSinceConnect (st.calls ++ new) ≤ waitsSinceConnect st.calls + 1 ∧
      ∀ call ∈ new, call.Long ∨ ∃ site delay, st.phase = .sleeping site delay ∧
        (1000 ≤ delay → call.Long) := by
  have hsame : ∀ calls : List Call, calls = st.calls →
      ∃ new, calls = st.calls ++ new ∧
        waitsSinceConnect (st.calls ++ new) ≤ waitsSinceConnect st.calls + 1 ∧
        ∀ call ∈ new, call.Long ∨ ∃ site delay, st.phase = .sleeping site delay ∧
          (1000 ≤ delay → call.Long) := by
    rintro calls rfl
    exact ⟨[], by simp, by simp, by simp⟩
  unfold step
  split
  · exact ⟨[_], rfl, by simp, by simp [Call.Long]⟩
  · exact hsame _ rfl
  · exact ⟨[_], rfl, by simp, by simp [Call.Long]⟩
  · exact hsame _ rfl
  · exact hsame _ rfl
  · exact hsame _ read_calls
  · exact hsame _ read_calls
  · split <;> exact hsame _ rfl
  · rename_i site delay signal hphase
    have hslept : ∀ call ∈ [Call.slept site delay signal, .connect], call.Long ∨
        ∃ site delay, st.phase = .sleeping site delay ∧ (1000 ≤ delay → call.Long) := by
      intro call hcall
      simp only [List.mem_cons, List.not_mem_nil, or_false] at hcall
      rcases hcall with rfl | rfl
      · exact Or.inr ⟨site, delay, hphase, id⟩
      · exact Or.inl trivial
    have hwaits : waitsSinceConnect (st.calls ++ [Call.slept site delay signal, .connect])
        = waitsSinceConnect st.calls + 1 := by
      have hsplit : st.calls ++ [Call.slept site delay signal, .connect]
          = st.calls ++ [Call.slept site delay signal] ++ [.connect] := by simp
      rw [hsplit, waitsSinceConnect_connect, waitsSinceConnect_slept]
    have hagain : ∃ new, st.calls ++ [Call.slept site delay signal] ++ [.connect]
          = st.calls ++ new ∧
        waitsSinceConnect (st.calls ++ new) ≤ waitsSinceConnect st.calls + 1 ∧
        ∀ call ∈ new, call.Long ∨ ∃ site delay, st.phase = .sleeping site delay ∧
          (1000 ≤ delay → call.Long) :=
      ⟨_, List.append_assoc _ _ _, hwaits.le, hslept⟩
    cases site with
    | connectError | subscribeError => exact hagain
    | disconnected =>
      cases signal with
      | false => exact hagain
      | true => exact ⟨[_], rfl, by simp, fun call hcall => hslept call (by simp_all)⟩
  · exact hsame _ rfl

/-- In a run of fewer than `2 ^ 31` events the exponent of the backoff does not overflow, and every
wait is one of a second or more. -/
theorem long_run (c : ClientSpec) (cfg : Config) (w : World) {es : List (Event c)}
    (hlen : es.length < 2 ^ 31) :
    waitsSinceConnect (run c cfg w es).calls ≤ es.length ∧
      ∀ call ∈ (run c cfg w es).calls, call.Long := by
  induction es using List.reverseRecOn with
  | nil => exact ⟨le_refl _, by simp [run, start, Call.Long]⟩
  | append_singleton es e ih =>
    rw [List.length_append, List.length_singleton] at hlen ⊢
    obtain ⟨hwaits, hlong⟩ := ih (by omega)
    obtain ⟨new, hcalls, hstep, hnew⟩ := @calls_step _ cfg (run c cfg w es) e
    have hrun : run c cfg w (es ++ [e]) = (run c cfg w es).step cfg e := by
      rw [run, List.foldl_concat]
      rfl
    rw [hrun, hcalls]
    refine ⟨by omega, ?_⟩
    intro call hcall
    rcases List.mem_append.mp hcall with hmem | hmem
    · exact hlong call hmem
    · rcases hnew call hmem with h | ⟨site, delay, hphase, h⟩
      · exact h
      · -- the wait is the backoff of the failures so far
        have hcounted := counted_run c cfg w es
        rw [Counted, hphase] at hcounted
        obtain ⟨-, jitter, rfl⟩ := hcounted
        apply h
        rw [backoffDelay, if_pos (by omega)]
        have hpow := Nat.one_le_two_pow (n := waitsSinceConnect (run c cfg w es).calls)
        omega

end Client

/-- **A client does not hammer its exchange.** In every run of fewer than `2 ^ 31` events there is a
second of waiting, or a signal, for every connect but the first. -/
theorem Venue.connects_paced (x : Venue) (rfc3339 : String → Option ℤ) (cfg : Config) (w : World)
    (es : List (Event (x.client rfc3339))) (hlen : es.length < 2 ^ 31) :
    let calls := (Client.run _ cfg w es).calls
    1000 * calls.countP Call.isConnect
      ≤ 1000 + (calls.map Call.waited).sum + 1000 * calls.countP Call.consumedSignal := by
  obtain ⟨stage, hpath, -⟩ := Client.follows_run _ cfg w es
  exact Stage.paid hpath (Client.long_run _ cfg w hlen).2

/-- A connect fails, and after the wait the second is made. -/
theorem Venue.connects_paced_failing :
    let calls := (Client.run (Venue.okx.client fun _ => none) okxConfig {}
      [.connectFailed { now := 0 }, .woken false]).calls
    1000 * calls.countP Call.isConnect
      ≤ 1000 + (calls.map Call.waited).sum + 1000 * calls.countP Call.consumedSignal :=
  Venue.connects_paced .okx (fun _ => none) okxConfig {}
    [.connectFailed { now := 0 }, .woken false] (by decide)

end Cryptomeria
