import Cryptomeria.Client.Venue

/-!
# A shutdown signal during a sleep

`signal_sleep` answers whether a signal ended it. After a disconnect the answer is looked at. After
a failed connect or subscription it is stored in `shutdown` and the loop continues at its top, where
nobody looks at it before the next connect: the signal is consumed and the client goes on.
-/

set_option autoImplicit false

namespace Cryptomeria

namespace Call

/-- The call opens a connection or sends a subscription. -/
def reachesOut : Call → Bool
  | connect => true
  | send _ => true
  | slept .. => false

/-- A sleep that a signal ended. -/
def consumedSignal : Call → Bool
  | slept _ _ signal => signal
  | _ => false

end Call

namespace Client

variable {c : ClientSpec} {cfg : Config} {st : Client c} {e : Event c}

/-- Once a sleep has consumed a signal, the client reaches out no more and has returned. -/
def Obeys (st : Client c) : Prop :=
  ∀ pre call post, st.calls = pre ++ call :: post → call.consumedSignal = true →
    (∀ call' ∈ post, call'.reachesOut = false) ∧ st.phase = .returned

/-- No sleep has consumed a signal so far. -/
def Quiet (st : Client c) : Prop := ∀ call ∈ st.calls, call.consumedSignal = false

theorem Quiet.obeys (h : st.Quiet) : st.Obeys := by
  intro pre call post hcalls hsig
  rw [h call (by simp [hcalls])] at hsig
  simp at hsig

/-- A state that obeys is quiet, or it has returned. -/
theorem Obeys.quiet_or_returned (h : st.Obeys) : st.Quiet ∨ st.phase = .returned := by
  by_cases hq : st.Quiet
  · exact Or.inl hq
  · simp only [Quiet, not_forall, Bool.not_eq_false] at hq
    obtain ⟨call, hmem, hsig⟩ := hq
    obtain ⟨pre, post, hcalls⟩ := List.append_of_mem hmem
    exact Or.inr (h pre call post hcalls hsig).2

theorem step_of_returned (h : st.phase = .returned) : st.step cfg e = st := by
  unfold step
  rw [h]

/-! ## What a step adds to the calls -/

@[simp] theorem read_calls {e : ConnEvent c} : (st.read cfg e).calls = st.calls := by
  unfold read
  cases e with
  | arrive item => rfl
  | answer stamp a => dsimp only; split <;> rfl
  | poll stamp =>
    dsimp only
    split
    · rfl
    · split <;> rfl
    · split <;> rfl

/-- A step other than the end of a sleep adds at most a connect or a subscription. -/
theorem quiet_step (hq : st.Quiet) (hw : ∀ site delay, st.phase = .sleeping site delay →
    ∀ signal, e ≠ .woken signal) : (st.step cfg e).Quiet := by
  have hsame : ∀ calls, (calls = st.calls ∨ ∃ msg, calls = st.calls ++ [.send msg]) →
      ∀ call ∈ calls, call.consumedSignal = false := by
    rintro calls (rfl | ⟨msg, rfl⟩) call hcall
    · exact hq call hcall
    · rcases List.mem_append.mp hcall with h | h
      · exact hq call h
      · rw [List.mem_singleton.mp h]
        rfl
  refine hsame _ ?_
  unfold step
  split
  · exact Or.inr ⟨_, rfl⟩
  · exact Or.inl rfl
  · exact Or.inr ⟨_, rfl⟩
  · exact Or.inl rfl
  · exact Or.inl rfl
  · exact Or.inl read_calls
  · exact Or.inl read_calls
  · split <;> exact Or.inl rfl
  · rename_i site delay signal hphase
    exact absurd rfl (hw site delay hphase signal)
  · exact Or.inl rfl

/-- A sleep that no signal ended leaves the client quiet. -/
theorem quiet_wake_false (hq : st.Quiet) (site : SleepSite) (delay : ℕ) :
    (st.wake site delay false).Quiet := by
  have hslept : ∀ call ∈ st.calls ++ [Call.slept site delay false, .connect],
      call.consumedSignal = false := by
    intro call hcall
    rcases List.mem_append.mp hcall with h | h
    · exact hq call h
    · simp only [List.mem_cons, List.not_mem_nil, or_false] at h
      rcases h with rfl | rfl <;> rfl
  cases site <;> simpa [Quiet, wake, connect] using hslept

/-- A signal during a sleep is obeyed exactly when the sleep follows a disconnect. -/
theorem obeys_wake_true_iff (hq : st.Quiet) (site : SleepSite) (delay : ℕ) :
    (st.wake site delay true).Obeys ↔ site = .disconnected := by
  have hgoes : ∀ st' : Client c,
      st'.calls = st.calls ++ [.slept site delay true] ++ [.connect] → ¬ st'.Obeys := by
    intro st' hcalls hob
    have := (hob st.calls (.slept site delay true) [.connect] (by simpa using hcalls) rfl).1
    exact absurd (this .connect List.mem_cons_self) (by simp [Call.reachesOut])
  cases site with
  | connectError => exact iff_of_false (hgoes _ rfl) (by simp)
  | subscribeError => exact iff_of_false (hgoes _ rfl) (by simp)
  | disconnected =>
    refine iff_of_true ?_ rfl
    intro pre call post hcalls hsig
    -- the only signal in the history is the last call
    have hlast : post = [] := by
      rcases List.eq_nil_or_concat post with h | ⟨post', last, rfl⟩
      · exact h
      · have hsplit : st.calls ++ [.slept .disconnected delay true]
            = (pre ++ call :: post') ++ [last] := by simpa [wake] using hcalls
        have hmem : call ∈ st.calls := by
          rw [(List.append_inj' hsplit rfl).1]
          simp
        rw [hq call hmem] at hsig
        simp at hsig
    rw [hlast]
    exact ⟨by simp, rfl⟩

/-- The event does not end a sleep with a signal elsewhere than after a disconnect. -/
def SignalAfterDisconnect (st : Client c) (e : Event c) : Prop :=
  ∀ site delay, st.phase = .sleeping site delay → e = .woken true → site = .disconnected

theorem obeys_step_iff (hob : st.Obeys) : (st.step cfg e).Obeys ↔ SignalAfterDisconnect st e := by
  rcases hob.quiet_or_returned with hq | hret
  · by_cases hw : ∃ site delay signal, st.phase = .sleeping site delay ∧ e = .woken signal
    · obtain ⟨site, delay, signal, hphase, rfl⟩ := hw
      have hstep : st.step cfg (.woken signal) = st.wake site delay signal := by
        simp only [step, hphase]
      rw [hstep]
      cases signal with
      | false =>
        refine iff_of_true (quiet_wake_false hq site delay).obeys ?_
        intro _ _ _ h
        simp at h
      | true =>
        rw [obeys_wake_true_iff hq]
        constructor
        · rintro rfl site' delay' hphase' -
          rw [hphase] at hphase'
          simp only [Phase.sleeping.injEq] at hphase'
          exact hphase'.1.symm
        · exact fun h => h site delay hphase rfl
    · refine iff_of_true (quiet_step hq ?_).obeys ?_
      · exact fun site delay hphase signal he => hw ⟨site, delay, signal, hphase, he⟩
      · exact fun site delay hphase he => absurd ⟨site, delay, true, hphase, he⟩ hw
  · rw [step_of_returned hret]
    refine iff_of_true hob fun site delay hphase => ?_
    rw [hret] at hphase
    simp at hphase

theorem quiet_start (c : ClientSpec) (cfg : Config) (w : World) : (start c cfg w).Quiet := by
  intro call hcall
  obtain rfl : call = .connect := by simpa [start] using hcall
  rfl

end Client

/-- **When a consumed signal ends the run.** In every run of a client, no connect and no
subscription follows a sleep that a signal ended, and the client has returned, if and only if no
signal ends a sleep other than the one after a disconnect. -/
theorem Venue.signal_obeyed_iff (x : Venue) (rfc3339 : String → Option ℤ) (cfg : Config) (w : World)
    (es : List (Event (x.client rfc3339))) :
    Trace.Always (Client.step cfg) Client.Obeys (Client.start _ cfg w) es ↔
      Trace.EachStep (Client.step cfg) Client.SignalAfterDisconnect (Client.start _ cfg w) es :=
  Trace.always_iff_eachStep (H := fun _ => True) (I := fun _ => True) trivial
    (Client.quiet_start _ cfg w).obeys (fun _ _ => trivial) (fun _ _ _ _ _ => trivial)
    (fun _ _ _ hob _ => Client.obeys_step_iff hob)

/-- The first connect fails, and a signal arrives during the backoff: the client connects again. -/
theorem Venue.signal_ignored :
    ¬ ∀ (x : Venue) (rfc3339 : String → Option ℤ) (cfg : Config) (w : World)
      (es : List (Event (x.client rfc3339))),
      Trace.Always (Client.step cfg) Client.Obeys (Client.start _ cfg w) es := by
  intro h
  have hrun := (h .okx (fun _ => none) okxConfig {}
    [.connectFailed { now := 0 }, .woken true]).last
  have hquiet := (hrun [.connect] (.slept .connectError 1000 true) [.connect] rfl rfl).1
  exact absurd (hquiet .connect List.mem_cons_self) (by decide)

end Cryptomeria
