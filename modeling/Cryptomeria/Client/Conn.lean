import Cryptomeria.Client.World

/-!
# One connection

The read loop of `run` between two connects. Frames arrive in the socket whenever the server sends
them; the loop takes one at a time. Bitstamp's handler can stop in the middle to await the answer of
a REST request, and then nothing is read until the answer is there; whatever arrives meanwhile waits
in the socket.

`ClientSpec` is what the three `run` functions differ in. The session is what a connection starts
afresh: the order book and, for Bitstamp, the state of the reconciliation.
-/

set_option autoImplicit false

namespace Cryptomeria

/-- What `read.next()` yields. A text comes with what `from_json` reads from it. -/
inductive ReadItem (M : Type) where
  /-- `None`: the stream has ended. -/
  | done
  | error
  | close
  | text (raw : String) (parsed : Option M)
  | ping
  | pong
  | binary
  | frame

/-- The message of a text, if it has one. -/
def ReadItem.message {M : Type} : ReadItem M → Option M
  | .text _ parsed => parsed
  | _ => none

/-- Byte `n` of a string of these characters is a character boundary. -/
def isCharBoundary : List Char → ℕ → Bool
  | _, 0 => true
  | [], _ => false
  | c :: cs, n + 1 => decide (c.utf8Size ≤ n + 1) && isCharBoundary cs (n + 1 - c.utf8Size)

/-- `&text[..text.len().min(200)]`, in the log line of a parse error, does not panic. -/
def sliceable (raw : String) : Bool := isCharBoundary raw.toList (min raw.utf8ByteSize 200)

structure ClientSpec where
  Msg : Type
  /-- The answers of the REST request. -/
  Answer : Type
  Session : Type
  newSession : Config → Session
  book : Session → OrderBook
  /-- The handler is stopped at the REST request. -/
  awaiting : Session → Bool
  onMessage : Config → Option LobFilter → Msg → Session → Session
  onAnswer : Config → Option LobFilter → Answer → Session → Session
  /-- What a message writes, given the session before and after it. -/
  reportMessage : Config → Stamp → Msg → Session → Session → World → World
  reportAnswer : Config → Stamp → Answer → Session → Session → World → World
  /-- The two subscriptions, in this order. -/
  subscribeMsgs : Config → Value × Value
  /-- The status details of a connect, of the first subscription and of a failed connect. -/
  connectedDetail : Config → String
  subscribedDetail : Config → String
  connectErrorDetail : ℕ → Option String

inductive Ending where
  | disconnected
  | panicked
deriving DecidableEq

structure Conn (c : ClientSpec) where
  session : c.Session
  /-- Frames that have arrived and wait to be read. -/
  socket : List (ReadItem c.Msg) := []
  /-- Why the read loop was left. -/
  ending : Option Ending := none
  /-- History: the messages that were read and parsed, oldest first. -/
  received : List c.Msg := []

inductive ConnEvent (c : ClientSpec) where
  | arrive (item : ReadItem c.Msg)
  | poll (stamp : Stamp)
  | answer (stamp : Stamp) (a : c.Answer)

/-- The message that arrives with the event. -/
def ConnEvent.message {c : ClientSpec} : ConnEvent c → Option c.Msg
  | .arrive item => item.message
  | _ => none

namespace Conn

variable {c : ClientSpec}

def new (c : ClientSpec) (cfg : Config) : Conn c := { session := c.newSession cfg }

/-- The loop is ready for the next frame. -/
def ready (conn : Conn c) : Bool := conn.ending.isNone && !c.awaiting conn.session

variable (cfg : Config) (filter : Option LobFilter)

/-- The branch of the read loop for one frame. -/
def handle (stamp : Stamp) (item : ReadItem c.Msg) (conn : Conn c) (w : World) :
    Conn c × World :=
  match item with
  | .done => ({ conn with ending := some .disconnected }, w)
  | .error => ({ conn with ending := some .disconnected }, w)
  | .close => ({ conn with ending := some .disconnected }, w)
  | .text _ (some msg) =>
    let session := c.onMessage cfg filter msg conn.session
    ({ conn with session, received := conn.received ++ [msg] },
      c.reportMessage cfg stamp msg conn.session session
        { w with messagesReceived := w.messagesReceived + 1 })
  | .text raw none =>
    if sliceable raw then (conn, w) else ({ conn with ending := some .panicked }, w)
  | .ping => (conn, w)
  | .pong => (conn, w)
  | .binary => (conn, w)
  | .frame => (conn, w)

def step (st : Conn c × World) (e : ConnEvent c) : Conn c × World :=
  let (conn, w) := st
  match e with
  | .arrive item => ({ conn with socket := conn.socket ++ [item] }, w)
  | .poll stamp =>
    match conn.ready, conn.socket with
    | true, item :: rest => handle cfg filter stamp item { conn with socket := rest } w
    | _, _ => (conn, w)
  | .answer stamp a =>
    if conn.ending.isNone && c.awaiting conn.session then
      let session := c.onAnswer cfg filter a conn.session
      ({ conn with session }, c.reportAnswer cfg stamp a conn.session session w)
    else (conn, w)

/-! ## What an event does

An event makes the loop read a message, or answers a waiting handler, or does neither. -/

/-- The message that the event makes the loop read. -/
def reads (conn : Conn c) : ConnEvent c → Option c.Msg
  | .poll _ => if conn.ready then conn.socket.head?.bind ReadItem.message else none
  | _ => none

/-- The answer that the event gives to the waiting handler. -/
def takes (conn : Conn c) : ConnEvent c → Option c.Answer
  | .answer _ a => if conn.ending.isNone && c.awaiting conn.session then some a else none
  | _ => none

/-- How the session, the messages received and the world come out of an event. -/
inductive Effect (conn : Conn c) (w : World) : ConnEvent c → Conn c × World → Prop
  | quiet {e : ConnEvent c} {conn' : Conn c} (hreads : conn.reads e = none)
      (htakes : conn.takes e = none) (hsession : conn'.session = conn.session)
      (hreceived : conn'.received = conn.received) : Effect conn w e (conn', w)
  | message {stamp : Stamp} {msg : c.Msg} {conn' : Conn c}
      (hreads : conn.reads (.poll stamp) = some msg)
      (hsession : conn'.session = c.onMessage cfg filter msg conn.session)
      (hreceived : conn'.received = conn.received ++ [msg]) :
      Effect conn w (.poll stamp) (conn', c.reportMessage cfg stamp msg conn.session conn'.session
        { w with messagesReceived := w.messagesReceived + 1 })
  | answer {stamp : Stamp} {a : c.Answer} {conn' : Conn c}
      (htakes : conn.takes (.answer stamp a) = some a)
      (hsession : conn'.session = c.onAnswer cfg filter a conn.session)
      (hreceived : conn'.received = conn.received) :
      Effect conn w (.answer stamp a)
        (conn', c.reportAnswer cfg stamp a conn.session conn'.session w)

variable {cfg filter}

theorem step_effect (st : Conn c × World) (e : ConnEvent c) :
    Effect cfg filter st.1 st.2 e (step cfg filter st e) := by
  obtain ⟨conn, w⟩ := st
  cases e with
  | arrive item => exact .quiet rfl rfl rfl rfl
  | answer stamp a =>
    simp only [step]
    split
    · rename_i h
      exact .answer (by simp [takes, h]) rfl rfl
    · rename_i h
      exact .quiet rfl (by simp [takes, h]) rfl rfl
  | poll stamp =>
    simp only [step]
    split
    · rename_i item rest hready hsocket
      have hreads : conn.reads (.poll stamp) = item.message := by simp [reads, hready, hsocket]
      cases item with
      | text raw parsed =>
        cases parsed with
        | some msg => exact .message hreads rfl rfl
        | none =>
          simp only [handle]
          split <;> exact .quiet hreads rfl rfl rfl
      | done | error | close | ping | pong | binary | frame =>
        exact .quiet hreads rfl rfl rfl
    · rename_i hno
      refine .quiet ?_ rfl rfl rfl
      cases hready : conn.ready with
      | false => simp [reads, hready]
      | true =>
        cases hsocket : conn.socket with
        | nil => simp [reads, hsocket]
        | cons item rest => exact absurd hsocket (hno item rest hready)

theorem received_step (cfg : Config) (filter : Option LobFilter) (st : Conn c × World)
    (e : ConnEvent c) :
    (step cfg filter st e).1.received = st.1.received ++ (st.1.reads e).toList := by
  have heffect : Effect cfg filter st.1 st.2 e (step cfg filter st e) := step_effect st e
  generalize step cfg filter st e = st' at heffect ⊢
  cases heffect with
  | quiet hreads _ _ hreceived => simp [hreceived, hreads]
  | message hreads _ hreceived => simp [hreceived, hreads]
  | answer _ _ hreceived => simp [hreceived, reads]

/-- The messages that have arrived, read or not. -/
def arrived (conn : Conn c) : List c.Msg :=
  conn.received ++ conn.socket.filterMap ReadItem.message

/-- No message gets lost between the socket and the loop. -/
theorem arrived_step (st : Conn c × World) (e : ConnEvent c) :
    (step cfg filter st e).1.arrived = st.1.arrived ++ e.message.toList := by
  obtain ⟨conn, w⟩ := st
  cases e with
  | arrive item =>
    simp only [step, arrived, ConnEvent.message, List.filterMap_append, List.append_assoc]
    cases h : item.message <;> simp [h]
  | answer stamp a =>
    simp only [step]
    split <;> simp [arrived, ConnEvent.message]
  | poll stamp =>
    simp only [step]
    split
    · rename_i item rest hready hsocket
      cases item with
      | text raw parsed =>
        cases parsed with
        | some msg => simp [handle, arrived, hsocket, ConnEvent.message, ReadItem.message]
        | none =>
          simp only [handle]
          split <;>
            simp [arrived, hsocket, ConnEvent.message, List.filterMap_cons, ReadItem.message]
      | done | error | close | ping | pong | binary | frame =>
        simp [handle, arrived, hsocket, ConnEvent.message, List.filterMap_cons, ReadItem.message]
    · simp [arrived, ConnEvent.message]

theorem arrived_run (cfg : Config) (filter : Option LobFilter) (w : World)
    (es : List (ConnEvent c)) :
    (es.foldl (step cfg filter) (Conn.new c cfg, w)).1.arrived
      = es.filterMap ConnEvent.message := by
  induction es using List.reverseRecOn with
  | nil => rfl
  | append_singleton es e ih =>
    rw [List.foldl_concat, arrived_step, ih, List.filterMap_append]
    cases h : e.message <;> simp [h]

end Conn

end Cryptomeria
