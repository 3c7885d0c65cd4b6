import Cryptomeria.Client.Conn
import Cryptomeria.Lib.Trace

/-!
# The reconnect loop

`run` of the three clients as a state machine. It connects, sends two subscriptions and reads; when
something fails it waits and starts over. A phase is a place where `run` awaits something, and an
event is what it gets there; an event that no phase waits for changes nothing. The one flag
`shutdown` is written by every sleep and by the read loop, and looked at only after a frame and
after a disconnect.

The metrics server and the TTL statement at the start of `run` are left out.
-/

set_option autoImplicit false

namespace Cryptomeria

/-- `backoff_delay`, in milliseconds. The exponent `attempt as i32` is negative from `2 ^ 31` on. -/
def backoffDelay (attempt : ℕ) (jitter : Fin 1000) : ℕ :=
  (if attempt < 2 ^ 31 then min (1000 * 2 ^ attempt) 60000 else 1000 / 2 ^ (2 ^ 32 - attempt)) +
    jitter

/-- The calls of `signal_sleep`. -/
inductive SleepSite where
  | connectError
  | subscribeError
  | disconnected
deriving DecidableEq

inductive Phase where
  | connecting
  | subscribing (second : Bool)
  | reading
  | sleeping (site : SleepSite) (delay : ℕ)
  | returned
  | panicked
deriving DecidableEq

/-- A call that the outside can see. -/
inductive Call where
  | connect
  | send (msg : Value)
  /-- `signal_sleep` has returned. -/
  | slept (site : SleepSite) (delay : ℕ) (signal : Bool)

/-- What `run` can get while it waits. -/
inductive Event (c : ClientSpec) where
  | connected (stamp : Stamp)
  | connectFailed (stamp : Stamp)
  | sent (stamp : Stamp)
  | sendFailed (stamp : Stamp)
  | link (e : ConnEvent c)
  /-- `wait_for_shutdown_signal` completes. -/
  | signal
  /-- `signal_sleep` returns. -/
  | woken (signal : Bool)

structure Client (c : ClientSpec) where
  phase : Phase := .connecting
  attempt : ℕ := 0
  shutdown : Bool := false
  conn : Conn c
  world : World := {}
  /-- History: the calls made so far, oldest first. -/
  calls : List Call := [.connect]

namespace Client

variable {c : ClientSpec} (cfg : Config)

def start (c : ClientSpec) (cfg : Config) (w : World) : Client c :=
  { conn := Conn.new c cfg, world := w }

/-- Starts a backoff sleep; the attempt is counted already. -/
def sleep (site : SleepSite) (stamp : Stamp) (st : Client c) : Client c :=
  { st with phase := .sleeping site (backoffDelay (st.attempt - 1) stamp.jitter) }

/-- The top of the loop. -/
def connect (st : Client c) : Client c :=
  { st with phase := .connecting, calls := st.calls ++ [.connect] }

/-- The read loop was left without a shutdown. -/
def disconnect (stamp : Stamp) (st : Client c) : Client c :=
  let attempt := st.attempt + 1
  { st with
    attempt
    world := st.world.updateStatusActive cfg stamp.now false
      ("disconnected, attempt " ++ toString attempt) }.sleep .disconnected stamp

/-- One event of the connection, in the read loop. `shutdown` is looked at after a frame, when its
handler is through. -/
def read (e : ConnEvent c) (st : Client c) : Client c :=
  let (conn, world) := Conn.step cfg cfg.lobFilter (st.conn, st.world) e
  let next := { st with conn, world }
  match e with
  | .arrive _ => next
  | .answer _ _ =>
    if st.shutdown && c.awaiting st.conn.session then { next with phase := .returned } else next
  | .poll stamp =>
    match conn.ending with
    | some .panicked => { next with phase := .panicked }
    | some .disconnected =>
      if st.shutdown then { next with phase := .returned } else next.disconnect cfg stamp
    | none =>
      if st.shutdown && !st.conn.socket.isEmpty && !c.awaiting conn.session then
        { next with phase := .returned }
      else next

/-- `signal_sleep` has returned. After a failed connect or subscription the loop goes on, whatever
the answer is; after a disconnect it ends on a signal. -/
def wake (site : SleepSite) (delay : ℕ) (signal : Bool) (st : Client c) : Client c :=
  let st := { st with shutdown := signal, calls := st.calls ++ [Call.slept site delay signal] }
  match site with
  | .connectError | .subscribeError => st.connect
  | .disconnected => if signal then { st with phase := .returned } else st.connect

def step (st : Client c) (e : Event c) : Client c :=
  match st.phase, e with
  | .connecting, .connected stamp =>
    { st with
      attempt := 0
      world := st.world.updateStatusActive cfg stamp.now true (c.connectedDetail cfg)
      conn := Conn.new c cfg
      phase := .subscribing false
      calls := st.calls ++ [.send (c.subscribeMsgs cfg).1] }
  | .connecting, .connectFailed stamp =>
    let attempt := st.attempt + 1
    let world := match c.connectErrorDetail attempt with
      | some detail => st.world.updateStatusActive cfg stamp.now false detail
      | none => st.world
    { st with attempt, world }.sleep .connectError stamp
  | .subscribing false, .sent stamp =>
    { st with
      world := st.world.updateStatusActive cfg stamp.now true (c.subscribedDetail cfg)
      phase := .subscribing true
      calls := st.calls ++ [.send (c.subscribeMsgs cfg).2] }
  | .subscribing true, .sent _ => { st with phase := .reading }
  | .subscribing _, .sendFailed stamp =>
    { st with attempt := st.attempt + 1 }.sleep .subscribeError stamp
  | .subscribing _, .link (.arrive item) => st.read cfg (.arrive item)
  | .reading, .link e => st.read cfg e
  | .reading, .signal =>
    if c.awaiting st.conn.session then st
    else { st with shutdown := true, phase := .returned }
  | .sleeping site delay, .woken signal => st.wake site delay signal
  | _, _ => st

/-- A whole run. -/
def run (c : ClientSpec) (cfg : Config) (w : World) (es : List (Event c)) : Client c :=
  es.foldl (step cfg) (start c cfg w)

end Client

end Cryptomeria
