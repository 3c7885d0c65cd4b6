import Cryptomeria.Client.Journal
import Cryptomeria.Client.Shutdown

/-!
# A reconnect is a fresh start

What a client does after it has connected does not depend on what it did before: not on the book,
the messages or the failures of earlier connections, and not on what is in the tables or the status
map. It goes on as a client that has just been started (`Venue.reconnect_fresh`). There is one thing
that a client remembers, a signal that a wait has consumed.
-/

set_option autoImplicit false

namespace Cryptomeria
namespace Client

variable {c : ClientSpec} {cfg : Config} {st st' : Client c}

/-- All that decides what a client does next. -/
structure SameControl (st st' : Client c) : Prop where
  phase : st.phase = st'.phase
  attempt : st.attempt = st'.attempt
  shutdown : st.shutdown = st'.shutdown
  conn : st.conn = st'.conn

end Client

/-- The world does not decide what becomes of a connection. -/
theorem Conn.step_fst_congr {c : ClientSpec} (cfg : Config) (filter : Option LobFilter)
    (conn : Conn c) (w w' : World) (e : ConnEvent c) :
    (step cfg filter (conn, w) e).1 = (step cfg filter (conn, w') e).1 := by
  cases e with
  | arrive item => rfl
  | answer stamp a =>
    simp only [step]
    split <;> rfl
  | poll stamp =>
    simp only [step]
    split
    · rename_i item rest _ _
      cases item with
      | text raw parsed =>
        cases parsed with
        | some msg => rfl
        | none =>
          simp only [handle]
          split <;> rfl
      | done | error | close | ping | pong | binary | frame => rfl
    · rfl

namespace Client

variable {c : ClientSpec} {cfg : Config} {st st' : Client c}

theorem SameControl.read (h : SameControl st st') (e : ConnEvent c) :
    SameControl (st.read cfg e) (st'.read cfg e) := by
  obtain ⟨phase, attempt, shutdown, conn, w, calls⟩ := st
  obtain ⟨_, _, _, _, w', calls'⟩ := st'
  obtain ⟨rfl, rfl, rfl, rfl⟩ := h
  have hconn := Conn.step_fst_congr cfg cfg.lobFilter conn w w' e
  unfold Client.read
  cases e with
  | arrive item => exact ⟨rfl, rfl, rfl, hconn⟩
  | answer stamp a =>
    dsimp only
    split
    · exact ⟨rfl, rfl, rfl, hconn⟩
    · exact ⟨rfl, rfl, rfl, hconn⟩
  | poll stamp =>
    dsimp only
    rw [← hconn]
    split
    · exact ⟨rfl, rfl, rfl, rfl⟩
    · split
      · exact ⟨rfl, rfl, rfl, rfl⟩
      · exact ⟨rfl, rfl, rfl, rfl⟩
    · split
      · exact ⟨rfl, rfl, rfl, rfl⟩
      · exact ⟨rfl, rfl, rfl, rfl⟩

theorem SameControl.step (h : SameControl st st') (e : Event c) :
    SameControl (st.step cfg e) (st'.step cfg e) := by
  obtain ⟨phase, attempt, shutdown, conn, w, calls⟩ := st
  obtain ⟨_, _, _, _, w', calls'⟩ := st'
  obtain ⟨rfl, rfl, rfl, rfl⟩ := h
  have hread := fun e => @SameControl.read c cfg ⟨phase, attempt, shutdown, conn, w, calls⟩
    ⟨phase, attempt, shutdown, conn, w', calls'⟩ ⟨rfl, rfl, rfl, rfl⟩ e
  unfold Client.step
  dsimp only
  split
  · exact ⟨rfl, rfl, rfl, rfl⟩
  · exact ⟨rfl, rfl, rfl, rfl⟩
  · exact ⟨rfl, rfl, rfl, rfl⟩
  · exact ⟨rfl, rfl, rfl, rfl⟩
  · exact ⟨rfl, rfl, rfl, rfl⟩
  · exact hread _
  · exact hread _
  · split
    · exact ⟨rfl, rfl, rfl, rfl⟩
    · exact ⟨rfl, rfl, rfl, rfl⟩
  · rename_i site delay signal
    cases site <;> cases signal <;> exact ⟨rfl, rfl, rfl, rfl⟩
  · exact ⟨rfl, rfl, rfl, rfl⟩

/-- Both make the same calls. -/
theorem SameControl.calls_step (h : SameControl st st') (e : Event c) :
    ∃ made, (st.step cfg e).calls = st.calls ++ made ∧
      (st'.step cfg e).calls = st'.calls ++ made := by
  obtain ⟨phase, attempt, shutdown, conn, w, calls⟩ := st
  obtain ⟨_, _, _, _, w', calls'⟩ := st'
  obtain ⟨rfl, rfl, rfl, rfl⟩ := h
  have hnone : ∃ made, calls = calls ++ made ∧ calls' = calls' ++ made :=
    ⟨[], (List.append_nil _).symm, (List.append_nil _).symm⟩
  unfold Client.step
  dsimp only
  split
  · exact ⟨_, rfl, rfl⟩
  · exact hnone
  · exact ⟨_, rfl, rfl⟩
  · exact hnone
  · exact hnone
  · rw [read_calls, read_calls]
    exact hnone
  · rw [read_calls, read_calls]
    exact hnone
  · split
    · exact hnone
    · exact hnone
  · rename_i site delay signal
    have hconnect : ∃ made,
        calls ++ [.slept site delay signal] ++ [.connect] = calls ++ made ∧
          calls' ++ [.slept site delay signal] ++ [.connect] = calls' ++ made :=
      ⟨_, List.append_assoc _ _ _, List.append_assoc _ _ _⟩
    cases site with
    | connectError | subscribeError => exact hconnect
    | disconnected =>
      cases signal with
      | false => exact hconnect
      | true => exact ⟨_, rfl, rfl⟩
  · exact hnone

theorem SameControl.reads (h : SameControl st st') (e : Event c) : st.reads e = st'.reads e := by
  obtain ⟨phase, attempt, shutdown, conn, w, calls⟩ := st
  obtain ⟨_, _, _, _, w', calls'⟩ := st'
  obtain ⟨rfl, rfl, rfl, rfl⟩ := h
  rfl

/-- The two clients have come here from their starts in lockstep. -/
structure Twins (before before' : Client c) (st st' : Client c) : Prop where
  control : SameControl st st'
  calls : ∃ made, st.calls = before.calls ++ made ∧ st'.calls = before'.calls ++ made

theorem twins_run (h : SameControl st st') (es : List (Event c)) :
    Twins st st' (es.foldl (step cfg) st) (es.foldl (step cfg) st') ∧
      st.handled cfg es = st'.handled cfg es := by
  refine Trace.lockstep ?_ ⟨h, [], (List.append_nil _).symm, (List.append_nil _).symm⟩ es
  intro s s' e htwins
  obtain ⟨made, hmade, hmade'⟩ := htwins.calls
  obtain ⟨next, hnext, hnext'⟩ := @SameControl.calls_step _ cfg _ _ htwins.control e
  refine ⟨⟨htwins.control.step e, made ++ next, ?_, ?_⟩, htwins.control.reads e⟩
  · rw [hnext, hmade, List.append_assoc]
  · rw [hnext', hmade', List.append_assoc]

/-- Whatever there was before, a client that connects is as one that connects for the first time. -/
theorem sameControl_connected (hphase : st.phase = .connecting) (hphase' : st'.phase = .connecting)
    (hshutdown : st.shutdown = st'.shutdown) (stamp : Stamp) :
    SameControl (st.step cfg (.connected stamp)) (st'.step cfg (.connected stamp)) := by
  simp only [step, hphase, hphase']
  exact ⟨rfl, rfl, hshutdown, rfl⟩

end Client

/-- **A reconnect is a fresh start.** A client that has consumed no signal connects after any run,
and another is started with any tables and connects at once. From then on, with the same events,
they are in the same phase with the same connection, make the same calls and add the same to the
tables and counters. -/
theorem Venue.reconnect_fresh (x : Venue) (rfc3339 : String → Option ℤ) (cfg : Config)
    (w w' : World) (pre : List (Event (x.client rfc3339)))
    (hphase : (Client.run _ cfg w pre).phase = .connecting)
    (hquiet : (Client.run _ cfg w pre).shutdown = false) (stamp : Stamp)
    (post : List (Event (x.client rfc3339))) :
    let old := Client.run _ cfg w pre
    let reconnected := Client.run _ cfg w (pre ++ .connected stamp :: post)
    let started := Client.run _ cfg w' (.connected stamp :: post)
    Client.SameControl reconnected started ∧
      (∃ made, reconnected.calls = old.calls ++ made ∧ started.calls = .connect :: made) ∧
      ∃ handled, (x.journal rfc3339).Adds cfg old.world handled reconnected.world ∧
        (x.journal rfc3339).Adds cfg w' handled started.world := by
  intro old reconnected started
  have hcontrol := @Client.sameControl_connected _ cfg old (Client.start _ cfg w') hphase rfl
    hquiet stamp
  obtain ⟨htwins, hhandled⟩ := @Client.twins_run _ cfg _ _ hcontrol post
  have hreconnected : reconnected
      = post.foldl (Client.step cfg) (old.step cfg (.connected stamp)) := by
    rw [show reconnected = Client.run _ cfg w (pre ++ .connected stamp :: post) from rfl,
      Client.run, List.foldl_append]
    rfl
  refine ⟨?_, ?_, (Client.start _ cfg w').handled cfg (.connected stamp :: post), ?_, ?_⟩
  · rw [hreconnected]
    exact htwins.control
  · obtain ⟨made, hmade, hmade'⟩ := htwins.calls
    refine ⟨.send ((x.client rfc3339).subscribeMsgs cfg).1 :: made, ?_, ?_⟩
    · rw [hreconnected, hmade]
      simp only [Client.step, show old.phase = .connecting from hphase, List.append_assoc,
        List.singleton_append]
    · exact hmade'
  · have hadds := @ClientSpec.Journal.adds_run _ (x.journal rfc3339) cfg old
      (.connected stamp :: post)
    rw [hreconnected]
    rwa [show old.handled cfg (.connected stamp :: post)
      = (Client.start _ cfg w').handled cfg (.connected stamp :: post) from hhandled] at hadds
  · exact @ClientSpec.Journal.adds_run _ (x.journal rfc3339) cfg (Client.start _ cfg w')
      (.connected stamp :: post)

/-- The client reads a snapshot, loses the connection and waits. -/
def lostConnection : List (Event Okx.client) :=
  [.connected { now := 1 }, .sent { now := 2 }, .sent { now := 3 },
    .link (.arrive (.text "" (some (Okx.booksMsg "snapshot" [("100", "1")] [("101", "2")])))),
    .link (.poll { now := 4 }), .link (.arrive .close), .link (.poll { now := 5 }), .woken false]

/-- After the wait it reads another snapshot. -/
theorem Venue.reconnect_fresh_lostConnection :
    let post : List (Event Okx.client) := [.sent { now := 7 }, .sent { now := 8 },
      .link (.arrive (.text "" (some (Okx.booksMsg "snapshot" [("102", "1")] [])))),
      .link (.poll { now := 9 })]
    Client.SameControl
      (Client.run Okx.client okxConfig {} (lostConnection ++ .connected { now := 6 } :: post))
      (Client.run Okx.client okxConfig {} (.connected { now := 6 } :: post)) :=
  (Venue.reconnect_fresh .okx (fun _ => none) okxConfig {} {} lostConnection rfl rfl { now := 6 }
    _).1

end Cryptomeria
