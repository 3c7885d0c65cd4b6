import Cryptomeria.Client.Shutdown

/-!
# The waits of the reconnect loop

A wait doubles with each failure in a row, up to a minute. The counter starts anew with every
connect that succeeds, before its subscriptions are sent; so the failures in a row are those since
the last successful connect. The first of them is what became of that connection: a subscription
that failed, or the disconnect.
-/

set_option autoImplicit false

namespace Cryptomeria

/-- The wait after the `k`th failure in a row, but for the jitter. -/
def backoffBase (k : ℕ) : ℕ := min (1000 * 2 ^ (k - 1)) 60000

def InBand (k delay : ℕ) : Prop := backoffBase k ≤ delay ∧ delay < backoffBase k + 1000

theorem inBand_backoffDelay {k : ℕ} (hk : k < 2 ^ 31) (jitter : Fin 1000) :
    InBand k (backoffDelay (k - 1) jitter) := by
  have hpos : k - 1 < 2 ^ 31 := by omega
  rw [InBand, backoffDelay, if_pos hpos, ← backoffBase]
  omega

/-! ## Failures in a row -/

/-- The waits since the last successful connect: it alone is followed by a subscription. -/
def waitsSinceConnect (calls : List Call) : ℕ :=
  calls.foldl (fun waits call => match call with
    | .connect => waits
    | .send _ => 0
    | .slept _ _ _ => waits + 1) 0

/-- The attempts in a row that failed before both subscriptions were sent: after an attempt that
has sent both, the wait is that of a disconnect. -/
def failedInRow (calls : List Call) : ℕ :=
  calls.foldl (fun failed call => match call with
    | .slept .disconnected _ _ => 0
    | .slept _ _ _ => failed + 1
    | _ => failed) 0

section

variable (calls : List Call)

@[simp] theorem waitsSinceConnect_connect :
    waitsSinceConnect (calls ++ [.connect]) = waitsSinceConnect calls := by
  rw [waitsSinceConnect, List.foldl_concat]
  rfl

@[simp] theorem waitsSinceConnect_send (msg : Value) :
    waitsSinceConnect (calls ++ [.send msg]) = 0 := by
  rw [waitsSinceConnect, List.foldl_concat]

@[simp] theorem waitsSinceConnect_slept (site : SleepSite) (delay : ℕ) (signal : Bool) :
    waitsSinceConnect (calls ++ [.slept site delay signal]) = waitsSinceConnect calls + 1 := by
  rw [waitsSinceConnect, List.foldl_concat]
  rfl

end

namespace Client

variable {c : ClientSpec} {cfg : Config} {st : Client c}

/-- The counter, phase by phase. -/
def Counted (st : Client c) : Prop :=
  match st.phase with
  | .connecting => st.attempt = waitsSinceConnect st.calls
  | .subscribing _ | .reading => st.attempt = 0 ∧ waitsSinceConnect st.calls = 0
  | .sleeping _ delay => st.attempt = waitsSinceConnect st.calls + 1 ∧
      ∃ jitter, delay = backoffDelay (waitsSinceConnect st.calls) jitter
  | .returned | .panicked => True

/-- A failure is counted and waited for. -/
theorem counted_sleep (hcount : st.attempt = waitsSinceConnect st.calls + 1) (site : SleepSite)
    (stamp : Stamp) : (st.sleep site stamp).Counted := by
  refine ⟨hcount, stamp.jitter, ?_⟩
  rw [hcount]
  rfl

theorem counted_connect (hcount : st.attempt = waitsSinceConnect st.calls) :
    st.connect.Counted := by
  show st.attempt = waitsSinceConnect (st.calls ++ [.connect])
  rw [waitsSinceConnect_connect]
  exact hcount

theorem counted_wake (hcount : st.attempt = waitsSinceConnect st.calls + 1) (site : SleepSite)
    (delay : ℕ) (signal : Bool) : (st.wake site delay signal).Counted := by
  have hslept := hcount.trans (waitsSinceConnect_slept st.calls site delay signal).symm
  cases site with
  | connectError | subscribeError => exact counted_connect hslept
  | disconnected =>
    cases signal with
    | true => trivial
    | false => exact counted_connect hslept

/-- In the read loop nothing is counted but the disconnect. -/
theorem counted_read (hphase : st.phase = .reading) (h : st.Counted) (e : ConnEvent c) :
    (st.read cfg e).Counted := by
  rw [Counted, hphase] at h
  obtain ⟨hattempt, hwaits⟩ := h
  have hstays : ∀ st' : Client c, st'.phase = .reading → st'.attempt = st.attempt →
      st'.calls = st.calls → st'.Counted := by
    intro st' hphase' hattempt' hcalls'
    rw [Counted, hphase', hattempt', hcalls']
    exact ⟨hattempt, hwaits⟩
  unfold read
  cases e with
  | arrive item => exact hstays _ hphase rfl rfl
  | answer stamp a =>
    dsimp only
    split
    · trivial
    · exact hstays _ hphase rfl rfl
  | poll stamp =>
    dsimp only
    split
    · trivial
    · split
      · trivial
      · refine counted_sleep ?_ .disconnected stamp
        show st.attempt + 1 = waitsSinceConnect st.calls + 1
        rw [hattempt, hwaits]
    · split
      · trivial
      · exact hstays _ hphase rfl rfl

theorem counted_step (h : st.Counted) (e : Event c) : (st.step cfg e).Counted := by
  unfold step
  split
  · -- connected
    exact ⟨rfl, waitsSinceConnect_send _ _⟩
  · -- the connect failed
    rename_i hphase
    rw [Counted, hphase] at h
    exact counted_sleep (congrArg (· + 1) h) .connectError _
  · -- the first subscription is sent
    rename_i hphase
    rw [Counted, hphase] at h
    exact ⟨h.1, waitsSinceConnect_send _ _⟩
  · rename_i hphase
    rw [Counted, hphase] at h
    exact h
  · -- a subscription failed
    rename_i hphase
    rw [Counted, hphase] at h
    exact counted_sleep (congrArg (· + 1) (h.1.trans h.2.symm)) .subscribeError _
  · rename_i hphase
    rw [Counted, hphase] at h
    show Client.Counted { st with conn := _, world := _ }
    rw [Counted, hphase]
    exact h
  · rename_i hphase
    exact counted_read hphase h _
  · split
    · exact h
    · trivial
  · rename_i hphase
    rw [Counted, hphase] at h
    exact counted_wake h.1 _ _ _
  · exact h

/-- The counter is right in every state of a run. -/
theorem counted_run (c : ClientSpec) (cfg : Config) (w : World) (es : List (Event c)) :
    (run c cfg w es).Counted := by
  have hstart : (start c cfg w).Counted := rfl
  refine (Trace.always_of_inductive (H := fun _ => True) hstart (fun _ _ => trivial) ?_).last
  exact fun _ e h _ => counted_step h e

end Client

/-- **The waits of a run.** For every client, in every run and at every jitter, the wait after the
`k`th failure in a row since the last successful connect lies in the band of `k`. -/
theorem Venue.wait_inBand (x : Venue) (rfc3339 : String → Option ℤ) (cfg : Config) (w : World)
    (es : List (Event (x.client rfc3339))) {site : SleepSite} {delay k : ℕ}
    (hwait : (Client.run _ cfg w es).phase = .sleeping site delay)
    (hk : k = waitsSinceConnect (Client.run _ cfg w es).calls + 1) (hlt : k < 2 ^ 31) :
    InBand k delay := by
  have hcounted := Client.counted_run _ cfg w es
  rw [Client.Counted, hwait] at hcounted
  obtain ⟨-, jitter, rfl⟩ := hcounted
  have hband := inBand_backoffDelay hlt jitter
  rwa [hk, Nat.add_sub_cancel, ← hk] at hband

theorem Venue.wait_inBand_second : InBand 2 2000 :=
  Venue.wait_inBand .okx (fun _ => none) okxConfig {}
    [.connectFailed { now := 0 }, .woken false, .connectFailed { now := 0 }] rfl rfl (by decide)

/-- Two connects succeed and their subscriptions fail: the second wait is as short as the first. -/
theorem Venue.subscribe_errors_restart :
    ¬ ∀ (x : Venue) (rfc3339 : String → Option ℤ) (cfg : Config) (w : World)
      (es : List (Event (x.client rfc3339))) (site : SleepSite) (delay k : ℕ),
      (Client.run _ cfg w es).phase = .sleeping site delay → site ≠ .disconnected →
      k = failedInRow (Client.run _ cfg w es).calls + 1 → k < 2 ^ 31 → InBand k delay := by
  intro h
  have hband := h .okx (fun _ => none) okxConfig {}
    [.connected { now := 0 }, .sendFailed { now := 0 }, .woken false, .connected { now := 0 },
      .sendFailed { now := 0 }] .subscribeError 1000 2 rfl (by decide) rfl (by decide)
  exact absurd hband.1 (by decide)

end Cryptomeria
