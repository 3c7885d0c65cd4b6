import Cryptomeria.Client.Report
import Cryptomeria.Lib.Trace

/-!
# The active flag

When the flag of a status entry tells the truth. The entry becomes active with a connection, and a
disconnect in the read loop makes it inactive again. The other ways out of a connection write
nothing: a subscription that cannot be sent, a shutdown, a panic of the read loop
(`Client.DropsSilently`). `active_truthful_iff` says that there are no others.
-/

set_option autoImplicit false

namespace Cryptomeria

/-! ## What writes the flag -/

/-- A new entry; the other updates keep the flag. -/
def Update.isStatus : Update → Bool
  | .status _ => true
  | _ => false

def Slice.active (sl : Slice) : Option Bool := sl.status.map ClientStatus.active

theorem Slice.active_apply {sl : Slice} {up : Update} (h : up.isStatus = false) :
    (sl.apply up).active = sl.active := by
  cases up with
  | status st => simp [Update.isStatus] at h
  | sizes | lastPrice => cases hst : sl.status <;> simp [apply, active, hst]
  | gauge | depth | trade => rfl

/-- No update writes a new entry. -/
def KeepsEntry (us : List Update) : Prop := ∀ up ∈ us, up.isStatus = false

theorem KeepsEntry.nil : KeepsEntry [] := by
  intro up h
  simp at h

theorem KeepsEntry.singleton {up : Update} (h : up.isStatus = false) : KeepsEntry [up] := by
  intro up' hup
  rw [List.mem_singleton.mp hup]
  exact h

theorem KeepsEntry.append {us vs : List Update} (hu : KeepsEntry us) (hv : KeepsEntry vs) :
    KeepsEntry (us ++ vs) :=
  List.forall_mem_append.mpr ⟨hu, hv⟩

theorem KeepsEntry.ofOption {α : Type} {f : α → Update} (h : ∀ a, (f a).isStatus = false)
    (o : Option α) : KeepsEntry (o.map f).toList := by
  cases o with
  | none => exact .nil
  | some a => exact .singleton (h a)

theorem KeepsEntry.map {α : Type} {f : α → Update} (h : ∀ a, (f a).isStatus = false)
    (as : List α) : KeepsEntry (as.map f) :=
  List.forall_mem_map.mpr fun a _ => h a

namespace World

variable (cfg : Config)

/-- The flag of the client's entry, if there is an entry. -/
def active (w : World) : Option Bool := w.status[statusKey cfg]?.map ClientStatus.active

variable {cfg}

theorem active_eq_slice (w : World) :
    w.active cfg = (w.shared.slice cfg.exchange cfg.cliInstrument).active := rfl

theorem active_of_updates {w w' : World} {us : List Update}
    (h : w'.shared = us.foldl (Shared.apply cfg) w.shared)
    (hkeep : KeepsEntry us) : w'.active cfg = w.active cfg := by
  -- own updates act on the slice alone, and these leave the flag in it as it is
  have hfold : ∀ (us : List Update) (sh : Shared), KeepsEntry us →
      ((us.foldl (Shared.apply cfg) sh).slice cfg.exchange cfg.cliInstrument).active
        = (sh.slice cfg.exchange cfg.cliInstrument).active := by
    intro us
    induction us with
    | nil => exact fun _ _ => rfl
    | cons up us ih =>
      intro sh hus
      rw [List.foldl_cons, ih _ fun up' h' => hus up' (List.mem_cons_of_mem _ h'),
        Shared.slice_apply_own, Slice.active_apply (hus up List.mem_cons_self)]
  rw [active_eq_slice, h, hfold us _ hkeep, ← active_eq_slice]

theorem active_updateStatusActive (hstatus : cfg.statusHandle = true) (now : ℕ) (flag : Bool)
    (detail : String) (w : World) :
    (w.updateStatusActive cfg now flag detail).active cfg = some flag := by
  simp [updateStatusActive, hstatus, active]

end World

/-! ## The handlers -/

theorem keepsEntry_publishUpdates (now : ℕ) (book : OrderBook) :
    KeepsEntry (publishUpdates now book) := by
  have hlob : KeepsEntry (lobUpdates now book) :=
    (((KeepsEntry.ofOption (fun _ => rfl) _).append (.ofOption (fun _ => rfl) _)).append
      (.ofOption (fun _ => rfl) _)).append ((KeepsEntry.singleton rfl).append (.singleton rfl))
  exact hlob.append ((KeepsEntry.map (fun _ => rfl) _).append (.map (fun _ => rfl) _))

structure ClientSpec.Updates.KeepsEntry {c : ClientSpec} (u : c.Updates) : Prop where
  message : ∀ cfg stamp msg before after,
    Cryptomeria.KeepsEntry (u.message cfg stamp msg before after)
  answer : ∀ cfg stamp a before after,
    Cryptomeria.KeepsEntry (u.answer cfg stamp a before after)

theorem Okx.keepsEntry : Okx.updates.KeepsEntry where
  message cfg stamp msg _ book := by
    refine KeepsEntry.append ?_ ?_
    · cases msg.messageType with
      | l2Snapshot | l2Update | l2 => exact keepsEntry_publishUpdates _ _
      | trade | event | unknown =>
        cases firstTrade msg with
        | none => exact .nil
        | some trade => exact (KeepsEntry.singleton rfl).append (.ofOption (fun _ => rfl) _)
    · split
      · unfold persistUpdates
        cases msg.messageType with
        | trade =>
          cases firstTrade msg with
          | none => exact .nil
          | some trade =>
            dsimp only
            split
            · exact .singleton rfl
            · exact .nil
        | l2Snapshot | l2Update | l2 | event | unknown => exact .nil
      · exact .nil
  answer _ _ a := a.elim

theorem Kraken.keepsEntry (rfc3339 : String → Option ℤ) :
    (Kraken.updates rfc3339).KeepsEntry where
  message _ stamp msg _ book := by
    show KeepsEntry (messageUpdates stamp msg book)
    unfold messageUpdates
    cases msg.messageType with
    | l2Snapshot | l2Update | l2 => exact keepsEntry_publishUpdates _ _
    | trade => exact (KeepsEntry.singleton rfl).append (.ofOption (fun _ => rfl) _)
    | event | status | heartbeat | unknown => exact .nil
  answer _ _ a := a.elim

theorem Bitstamp.keepsEntry : Bitstamp.updates.KeepsEntry where
  message cfg stamp msg before after := by
    have hpersist : KeepsEntry (persistUpdates cfg stamp msg) := by
      unfold persistUpdates
      split
      · split
        · exact .singleton rfl
        · exact .nil
      · exact .nil
    show KeepsEntry (messageUpdates cfg stamp msg before after)
    unfold messageUpdates
    split
    · cases msg.messageType with
      | trade =>
        exact ((KeepsEntry.singleton rfl).append hpersist).append (.ofOption (fun _ => rfl) _)
      | l2Update | event | unknown | l2Snapshot => exact .nil
    · refine KeepsEntry.append ?_ hpersist
      cases msg.messageType with
      | l2Snapshot | l2Update => exact keepsEntry_publishUpdates _ _
      | trade => exact (KeepsEntry.singleton rfl).append (.ofOption (fun _ => rfl) _)
      | event | unknown => exact .nil
  answer _ stamp a _ after := by
    cases a with
    | ok snapshot => exact keepsEntry_publishUpdates _ _
    | badJson | failed => exact .nil

theorem Venue.keepsEntry (rfc3339 : String → Option ℤ) (x : Venue) :
    (x.updates rfc3339).KeepsEntry := by
  cases x with
  | okx => exact Okx.keepsEntry
  | kraken => exact Kraken.keepsEntry rfc3339
  | bitstamp => exact Bitstamp.keepsEntry

/-! ## The read loop -/

/-- The frame ends the connection. -/
def ReadItem.closes {M : Type} : ReadItem M → Bool
  | .done | .error | .close => true
  | _ => false

/-- The log line of a text that cannot be parsed panics. -/
def ReadItem.panics {M : Type} : ReadItem M → Bool
  | .text raw none => !sliceable raw
  | _ => false

theorem ReadItem.of_closes {M : Type} {item : ReadItem M} (h : item.closes = true) :
    item.panics = false ∧ item.message = none := by
  cases item with
  | done | error | close => exact ⟨rfl, rfl⟩
  | text | ping | pong | binary | frame => simp [closes] at h

namespace Conn

variable {c : ClientSpec} {cfg : Config} {filter : Option LobFilter}

/-- After the frame the handler is not stopped at a REST request. -/
def Finishes (cfg : Config) (filter : Option LobFilter) (conn : Conn c) (item : ReadItem c.Msg) :
    Prop :=
  ∀ msg ∈ item.message, c.awaiting (c.onMessage cfg filter msg conn.session) = false

instance (conn : Conn c) (item : ReadItem c.Msg) : Decidable (conn.Finishes cfg filter item) :=
  inferInstanceAs (Decidable (∀ msg ∈ item.message, _ = false))

theorem active_step (u : c.Updates) (hu : u.KeepsEntry) (hstatus : cfg.statusHandle = true)
    (filter : Option LobFilter) (st : Conn c × World) (e : ConnEvent c) :
    (step cfg filter st e).2.active cfg = st.2.active cfg := by
  refine World.active_of_updates (shared_step u hstatus filter st e) ?_
  unfold updates
  cases e with
  | arrive item => exact .nil
  | poll stamp =>
    dsimp only
    split
    · exact hu.message _ _ _ _ _
    · exact .nil
  | answer stamp a =>
    dsimp only
    split
    · exact hu.answer _ _ _ _ _
    · exact .nil

theorem ending_handle (cfg : Config) (filter : Option LobFilter) {conn : Conn c}
    (h : conn.ending = none) (stamp : Stamp) (item : ReadItem c.Msg) (w : World) :
    (handle cfg filter stamp item conn w).1.ending
      = if item.closes then some .disconnected
        else if item.panics then some .panicked else none := by
  cases item with
  | text raw parsed =>
    cases parsed with
    | some msg => exact h
    | none =>
      cases hraw : sliceable raw <;> simp [handle, ReadItem.closes, ReadItem.panics, hraw, h]
  | done | error | close => rfl
  | ping | pong | binary | frame => exact h

theorem awaiting_handle_iff (cfg : Config) (filter : Option LobFilter) {conn : Conn c}
    (h : conn.ready = true) (stamp : Stamp) (item : ReadItem c.Msg) (w : World) :
    c.awaiting (handle cfg filter stamp item conn w).1.session = false
      ↔ conn.Finishes cfg filter item := by
  have hidle : c.awaiting conn.session = false := by
    simp only [ready, Bool.and_eq_true, Bool.not_eq_true'] at h
    exact h.2
  cases item with
  | text raw parsed =>
    cases parsed with
    | some msg => simp [handle, Finishes, ReadItem.message]
    | none =>
      have hsession : (handle cfg filter stamp (.text raw none) conn w).1.session
          = conn.session := by
        simp only [handle]
        split <;> rfl
      simp [hsession, hidle, Finishes, ReadItem.message]
  | done | error | close | ping | pong | binary | frame =>
    exact iff_of_true hidle fun _ hmsg => absurd hmsg (by simp [ReadItem.message])

end Conn

/-! ## One step -/

/-- The client has an open connection. -/
def Phase.online : Phase → Bool
  | .subscribing _ | .reading => true
  | _ => false

namespace Client

variable {c : ClientSpec} (cfg : Config)

/-- Without an open connection the status entry is not active. -/
def Truthful (st : Client c) : Prop :=
  st.phase.online = false →
    ∀ entry, st.world.status[World.statusKey cfg]? = some entry → entry.active = false

/-- The event ends the connection, and nobody writes that to the status entry. -/
def DropsSilently (st : Client c) : Event c → Prop
  | .sendFailed _ => st.phase.online = true ∧ st.phase ≠ .reading
  | .signal => st.phase = .reading ∧ c.awaiting st.conn.session = false
  | .link (.poll _) => st.phase = .reading ∧ st.conn.ready = true ∧
      ∃ item ∈ st.conn.socket.head?,
        item.panics = true ∨ st.shutdown = true ∧ st.conn.Finishes cfg cfg.lobFilter item
  | .link (.answer _ _) =>
    st.phase = .reading ∧ st.shutdown = true ∧ c.awaiting st.conn.session = true
  | _ => False

instance (st : Client c) : DecidablePred (st.DropsSilently cfg)
  | .sendFailed _ => inferInstanceAs (Decidable (_ ∧ _))
  | .signal => inferInstanceAs (Decidable (_ ∧ _))
  | .link (.poll _) => inferInstanceAs (Decidable (_ ∧ _ ∧ ∃ item ∈ st.conn.socket.head?,
      item.panics = true ∨ st.shutdown = true ∧ st.conn.Finishes cfg cfg.lobFilter item))
  | .link (.answer _ _) => inferInstanceAs (Decidable (_ ∧ _ ∧ _))
  | .link (.arrive _) | .connected _ | .connectFailed _ | .sent _ | .woken _ =>
    inferInstanceAs (Decidable False)

/-- What a truthful entry says: the client is online exactly when the flag is set. -/
def Shows (st : Client c) : Prop :=
  if st.phase.online then st.conn.ending = none ∧ st.world.active cfg = some true
  else st.world.active cfg ≠ some true

variable {cfg} {st : Client c}

theorem truthful_iff :
    st.Truthful cfg ↔ (st.phase.online = false → st.world.active cfg ≠ some true) := by
  refine forall_congr' fun _ => ?_
  rw [World.active]
  cases st.world.status[World.statusKey cfg]? <;> simp

theorem shows_online (h : st.phase.online = true) :
    st.Shows cfg ↔ st.conn.ending = none ∧ st.world.active cfg = some true := by
  rw [Shows, if_pos h]

theorem shows_offline (h : st.phase.online = false) :
    st.Shows cfg ↔ st.world.active cfg ≠ some true := by
  rw [Shows, if_neg (by simp [h])]

theorem not_dropsSilently (h : st.phase.online = false) (e : Event c) :
    ¬ st.DropsSilently cfg e := by
  have hreading : st.phase ≠ .reading := by
    intro hphase
    rw [hphase] at h
    simp [Phase.online] at h
  cases e with
  | sendFailed stamp => exact fun hdrops => absurd (h.symm.trans hdrops.1) (by simp)
  | signal => exact fun hdrops => hreading hdrops.1
  | link e =>
    cases e with
    | arrive item => exact fun hdrops => hdrops
    | poll stamp => exact fun hdrops => hreading hdrops.1
    | answer stamp a => exact fun hdrops => hreading hdrops.1
  | connected | connectFailed | sent | woken => exact fun hdrops => hdrops

/-- The two ways that a step of an online client can go. -/
def Goes (cfg : Config) (st : Client c) (e : Event c) (st' : Client c) : Prop :=
  (¬ st.DropsSilently cfg e ∧ st'.Shows cfg) ∨
    (st.DropsSilently cfg e ∧ st'.phase.online = false ∧ st'.world.active cfg = some true)

/-- Without a frame, or with the handler stopped, the loop does nothing. -/
theorem read_poll_idle (hending : st.conn.ending = none) (stamp : Stamp)
    (hframe : ¬ (st.conn.ready = true ∧ st.conn.socket ≠ [])) :
    st.read cfg (.poll stamp) = st := by
  have hstep : Conn.step cfg cfg.lobFilter (st.conn, st.world) (.poll stamp)
      = (st.conn, st.world) := by
    cases hready : st.conn.ready with
    | false => simp only [Conn.step, hready]
    | true =>
      have hempty : st.conn.socket = [] := by
        by_contra hne
        exact hframe ⟨hready, hne⟩
      simp only [Conn.step, hready, hempty]
  unfold read
  rw [hstep]
  dsimp only
  rw [hending]
  dsimp only
  rw [if_neg]
  intro h
  simp only [Bool.and_eq_true, Bool.not_eq_true', List.isEmpty_eq_false_iff] at h
  exact hframe ⟨by simp [Conn.ready, hending, h.2], h.1.2⟩

section Steps

variable (hstatus : cfg.statusHandle = true)
include hstatus

theorem goes_subscribing {second : Bool} (hphase : st.phase = .subscribing second)
    (h : st.Shows cfg) (e : Event c) : Goes cfg st e (st.step cfg e) := by
  have honline : st.phase.online = true := congrArg Phase.online hphase
  have hreading : st.phase ≠ .reading := by simp [hphase]
  obtain ⟨hending, hactive⟩ := (shows_online honline).mp h
  cases e with
  | sent stamp =>
    cases second with
    | false =>
      simp only [step, hphase]
      refine Or.inl ⟨fun h => h, (shows_online rfl).mpr ⟨hending, ?_⟩⟩
      exact World.active_updateStatusActive hstatus _ _ _ _
    | true =>
      simp only [step, hphase]
      exact Or.inl ⟨fun h => h, (shows_online rfl).mpr ⟨hending, hactive⟩⟩
  | sendFailed stamp =>
    cases second <;> simp only [step, hphase] <;>
      exact Or.inr ⟨⟨honline, hreading⟩, rfl, hactive⟩
  | link e =>
    cases e with
    | arrive item =>
      cases second <;> simp only [step, hphase] <;>
        exact Or.inl ⟨fun h => h, (shows_online honline).mpr ⟨hending, hactive⟩⟩
    | poll stamp =>
      cases second <;> simp only [step, hphase] <;>
        exact Or.inl ⟨fun hdrops => hreading hdrops.1, h⟩
    | answer stamp a =>
      cases second <;> simp only [step, hphase] <;>
        exact Or.inl ⟨fun hdrops => hreading hdrops.1, h⟩
  | signal =>
    cases second <;> simp only [step, hphase] <;>
      exact Or.inl ⟨fun hdrops => hreading hdrops.1, h⟩
  | connected | connectFailed | woken =>
    cases second <;> simp only [step, hphase] <;> exact Or.inl ⟨fun hdrops => hdrops, h⟩

theorem goes_offline (hoffline : st.phase.online = false) (h : st.Shows cfg) (e : Event c) :
    Goes cfg st e (st.step cfg e) := by
  have hinactive := (shows_offline hoffline).mp h
  refine Or.inl ⟨not_dropsSilently hoffline e, ?_⟩
  cases hphase : st.phase with
  | connecting =>
    cases e with
    | connected stamp =>
      simp only [step, hphase]
      exact (shows_online rfl).mpr ⟨rfl, World.active_updateStatusActive hstatus _ _ _ _⟩
    | connectFailed stamp =>
      simp only [step, hphase]
      refine (shows_offline rfl).mpr ?_
      cases c.connectErrorDetail (st.attempt + 1) with
      | none => exact hinactive
      | some detail =>
        have hfalse : (World.updateStatusActive cfg stamp.now false detail st.world).active cfg
            = some false := World.active_updateStatusActive hstatus _ _ _ _
        exact fun htrue => absurd (hfalse.symm.trans htrue) (by simp)
    | sent | sendFailed | link | signal | woken =>
      simp only [step, hphase]
      exact h
  | sleeping site delay =>
    cases e with
    | woken signal =>
      simp only [step, hphase, wake]
      cases site <;> cases signal <;> exact (shows_offline rfl).mpr hinactive
    | connected | connectFailed | sent | sendFailed | link | signal =>
      simp only [step, hphase]
      exact h
  | returned | panicked =>
    simp only [step, hphase]
    exact h
  | subscribing | reading =>
    rw [hphase] at hoffline
    simp [Phase.online] at hoffline

variable (u : c.Updates) (hu : u.KeepsEntry)
include hu

theorem goes_poll (hphase : st.phase = .reading) (hending : st.conn.ending = none)
    (hactive : st.world.active cfg = some true) (stamp : Stamp) {item : ReadItem c.Msg}
    {rest : List (ReadItem c.Msg)} (hready : st.conn.ready = true)
    (hsocket : st.conn.socket = item :: rest) :
    Goes cfg st (.link (.poll stamp)) (st.read cfg (.poll stamp)) := by
  have hnext := Conn.active_step u hu hstatus cfg.lobFilter (st.conn, st.world)
    (.poll stamp)
  have hstep : Conn.step cfg cfg.lobFilter (st.conn, st.world) (.poll stamp)
      = Conn.handle cfg cfg.lobFilter stamp item { st.conn with socket := rest } st.world := by
    simp only [Conn.step, hready, hsocket]
  have hend := @Conn.ending_handle _ cfg cfg.lobFilter { st.conn with socket := rest } hending
    stamp item st.world
  have hawait := @Conn.awaiting_handle_iff _ cfg cfg.lobFilter { st.conn with socket := rest }
    hready stamp item st.world
  have hdrops : st.DropsSilently cfg (.link (.poll stamp)) ↔
      item.panics = true ∨ st.shutdown = true ∧ st.conn.Finishes cfg cfg.lobFilter item := by
    simp [DropsSilently, hphase, hready, hsocket]
  rw [hstep] at hnext
  unfold read
  rw [hstep]
  -- from here on only what `hnext`, `hend` and `hawait` say of the handler counts
  generalize Conn.handle cfg cfg.lobFilter stamp item { st.conn with socket := rest } st.world = r
    at hnext hend hawait
  replace hnext : r.2.active cfg = some true := hnext.trans hactive
  dsimp only
  cases hcloses : item.closes with
  | true =>
    rw [hcloses, if_pos rfl] at hend
    have hpanics : item.panics = false := (ReadItem.of_closes hcloses).1
    have hfinishes : st.conn.Finishes cfg cfg.lobFilter item := by
      intro msg hmsg
      exact absurd ((ReadItem.of_closes hcloses).2.symm.trans hmsg) (by simp)
    rw [hend]
    dsimp only
    cases hshutdown : st.shutdown with
    -- `run` returns, and the entry is left as it is
    | true => exact Or.inr ⟨hdrops.mpr (Or.inr ⟨hshutdown, hfinishes⟩), rfl, hnext⟩
    | false =>
      refine Or.inl ⟨fun h => ?_, ?_⟩
      · simpa [hpanics, hshutdown] using hdrops.mp h
      · refine (shows_offline rfl).mpr ?_
        show (World.updateStatusActive cfg stamp.now false _ r.2).active cfg ≠ some true
        rw [World.active_updateStatusActive hstatus]
        simp
  | false =>
    rw [hcloses, if_neg (by simp)] at hend
    cases hpanics : item.panics with
    | true =>
      rw [hpanics, if_pos rfl] at hend
      rw [hend]
      exact Or.inr ⟨hdrops.mpr (Or.inl hpanics), rfl, hnext⟩
    | false =>
      rw [hpanics, if_neg (by simp)] at hend
      rw [hend, hsocket]
      dsimp only
      by_cases hdone : st.shutdown = true ∧ st.conn.Finishes cfg cfg.lobFilter item
      · have hidle : c.awaiting r.1.session = false := hawait.mpr hdone.2
        rw [if_pos (by simp [hdone.1, hidle])]
        exact Or.inr ⟨hdrops.mpr (Or.inr hdone), rfl, hnext⟩
      · rw [if_neg]
        · refine Or.inl ⟨fun h => ?_, (shows_online ?_).mpr ⟨hend, hnext⟩⟩
          · exact (hdrops.mp h).elim (fun h => by simp [hpanics] at h) hdone
          · exact congrArg Phase.online hphase
        · intro h
          simp only [List.isEmpty_cons, Bool.not_false, Bool.and_true, Bool.and_eq_true,
            Bool.not_eq_true'] at h
          exact hdone ⟨h.1, hawait.mp h.2⟩

theorem goes_read (hphase : st.phase = .reading) (hending : st.conn.ending = none)
    (hactive : st.world.active cfg = some true) (e : ConnEvent c) :
    Goes cfg st (.link e) (st.read cfg e) := by
  have hnext := Conn.active_step u hu hstatus cfg.lobFilter (st.conn, st.world) e
  have honline : st.phase.online = true := congrArg Phase.online hphase
  cases e with
  | arrive item => exact Or.inl ⟨fun h => h, (shows_online honline).mpr ⟨hending, hactive⟩⟩
  | answer stamp a =>
    have hend : (Conn.step cfg cfg.lobFilter (st.conn, st.world) (.answer stamp a)).1.ending
        = none := by
      simp only [Conn.step]
      split
      · exact hending
      · exact hending
    unfold read
    dsimp only
    split
    · rename_i hdone
      rw [Bool.and_eq_true] at hdone
      exact Or.inr ⟨⟨hphase, hdone⟩, rfl, hnext.trans hactive⟩
    · rename_i hgoes
      rw [Bool.and_eq_true] at hgoes
      refine Or.inl ⟨fun h => hgoes h.2, (shows_online ?_).mpr ⟨hend, hnext.trans hactive⟩⟩
      exact honline
  | poll stamp =>
    by_cases hframe : st.conn.ready = true ∧ st.conn.socket ≠ []
    · obtain ⟨item, rest, hsocket⟩ := List.exists_cons_of_ne_nil hframe.2
      exact goes_poll hstatus u hu hphase hending hactive stamp hframe.1 hsocket
    · rw [read_poll_idle hending stamp hframe]
      refine Or.inl ⟨?_, (shows_online honline).mpr ⟨hending, hactive⟩⟩
      rintro ⟨-, hready, item, hitem, -⟩
      refine hframe ⟨hready, ?_⟩
      rintro hnil
      simp [hnil] at hitem

/-- What a step does to a client whose entry tells the truth. -/
theorem goes_step (h : st.Shows cfg) (e : Event c) : Goes cfg st e (st.step cfg e) := by
  cases hphase : st.phase with
  | subscribing second => exact goes_subscribing hstatus hphase h e
  | reading =>
    obtain ⟨hending, hactive⟩ := (shows_online (congrArg Phase.online hphase)).mp h
    cases e with
    | link e =>
      simp only [step, hphase]
      exact goes_read hstatus u hu hphase hending hactive e
    | signal =>
      simp only [step, hphase]
      cases hawait : c.awaiting st.conn.session with
      | true =>
        refine Or.inl ⟨?_, h⟩
        rintro ⟨-, hidle⟩
        exact absurd (hawait.symm.trans hidle) (by simp)
      | false => exact Or.inr ⟨⟨hphase, hawait⟩, rfl, hactive⟩
    | sendFailed stamp =>
      simp only [step, hphase]
      exact Or.inl ⟨fun hdrops => hdrops.2 hphase, h⟩
    | connected | connectFailed | sent | woken =>
      simp only [step, hphase]
      exact Or.inl ⟨fun hdrops => hdrops, h⟩
  | connecting | sleeping | returned | panicked =>
    exact goes_offline hstatus (congrArg Phase.online hphase) h e

end Steps

/-- The client is online with the flag set, or offline. -/
def OnlineActive (cfg : Config) (st : Client c) : Prop :=
  st.phase.online = true → st.conn.ending = none ∧ st.world.active cfg = some true

theorem shows_iff : st.Shows cfg ↔ st.OnlineActive cfg ∧ st.Truthful cfg := by
  rw [Shows, OnlineActive, truthful_iff]
  cases st.phase.online <;> simp

theorem Goes.onlineActive {e : Event c} {st' : Client c} (h : Goes cfg st e st') :
    st'.OnlineActive cfg := by
  rcases h with ⟨-, hshows⟩ | ⟨-, hoffline, -⟩
  · exact (shows_iff.mp hshows).1
  · exact fun honline => absurd (hoffline.symm.trans honline) (by simp)

theorem Goes.truthful_iff {e : Event c} {st' : Client c} (h : Goes cfg st e st') :
    st'.Truthful cfg ↔ ¬ st.DropsSilently cfg e := by
  rcases h with ⟨hno, hshows⟩ | ⟨hdrops, hoffline, hactive⟩
  · exact iff_of_true (shows_iff.mp hshows).2 hno
  · refine iff_of_false (fun htrue => ?_) (not_not_intro hdrops)
    exact Client.truthful_iff.mp htrue hoffline hactive

end Client

/-- The client's entry, if there is one yet, is not active. -/
def World.Inactive (cfg : Config) (w : World) : Prop :=
  ∀ entry, w.status[statusKey cfg]? = some entry → entry.active = false

/-- **When the active flag tells the truth.** In every run of a client with a status handle, the
entry is inactive whenever there is no open connection, if and only if it is inactive at the start
and no connection is dropped silently. -/
theorem Venue.active_truthful_iff (x : Venue) (rfc3339 : String → Option ℤ) (cfg : Config)
    (hstatus : cfg.statusHandle = true) (w : World) (es : List (Event (x.client rfc3339))) :
    Trace.Always (Client.step cfg) (Client.Truthful cfg) (Client.start _ cfg w) es ↔
      w.Inactive cfg ∧ Trace.EachStep (Client.step cfg) (fun st e => ¬ st.DropsSilently cfg e)
        (Client.start _ cfg w) es := by
  have hstart : (Client.start (x.client rfc3339) cfg w).Truthful cfg ↔ w.Inactive cfg :=
    ⟨fun h => h rfl, fun h _ => h⟩
  have hgoes : ∀ (st : Client (x.client rfc3339)) e, st.OnlineActive cfg → st.Truthful cfg →
      Client.Goes cfg st e (st.step cfg e) := by
    intro st e honline htrue
    have hshows := Client.shows_iff.mpr ⟨honline, htrue⟩
    exact Client.goes_step hstatus (x.updates rfc3339) (x.keepsEntry rfc3339) hshows e
  have hrun : (Client.start (x.client rfc3339) cfg w).Truthful cfg →
      (Trace.Always (Client.step cfg) (Client.Truthful cfg) (Client.start _ cfg w) es ↔
        Trace.EachStep (Client.step cfg) (fun st e => ¬ st.DropsSilently cfg e)
          (Client.start _ cfg w) es) := by
    intro htrue
    refine Trace.always_iff_eachStep (H := fun _ => True) (I := Client.OnlineActive cfg)
      ?_ htrue (fun _ _ => trivial) ?_ ?_
    · exact fun honline => absurd honline (by simp [Client.start, Phase.online])
    · exact fun st e honline htrue _ => (hgoes st e honline htrue).onlineActive
    · exact fun st e honline htrue _ => (hgoes st e honline htrue).truthful_iff
  constructor
  · intro h
    have htrue := h [] List.nil_prefix
    exact ⟨hstart.mp htrue, (hrun htrue).mp h⟩
  · rintro ⟨hinactive, h⟩
    exact (hrun (hstart.mpr hinactive)).mpr h

/-- A client of OKX with a status handle, for runs on fixed inputs. -/
def reportingConfig : Config := { okxConfig with statusHandle := true }

/-- A failed connect, a connection that the server closes, and the backoff after it. -/
def closedRun : List (Event (Venue.okx.client fun _ => none)) :=
  [.connectFailed { now := 0 }, .woken false, .connected { now := 1 }, .sent { now := 2 },
    .sent { now := 3 }, .link (.arrive .close), .link (.poll { now := 4 }), .woken false]

theorem Venue.active_truthful_closedRun :
    Trace.Always (Client.step reportingConfig) (Client.Truthful reportingConfig)
      (Client.start _ reportingConfig {}) closedRun := by
  refine (Venue.active_truthful_iff .okx (fun _ => none) reportingConfig rfl {} closedRun).mpr
    ⟨fun entry hentry => ?_, ?_⟩
  · simp at hentry
  · simp only [closedRun, Trace.eachStep_cons, Trace.eachStep_nil, and_true]
    decide

/-- The entry stays active through the backoff after a subscription that could not be sent, and
after a shutdown. -/
theorem Venue.active_without_connection :
    ¬ (Client.run (Venue.okx.client fun _ => none) reportingConfig {}
        [.connected { now := 0 }, .sendFailed { now := 1 }]).Truthful reportingConfig ∧
      ¬ (Client.run (Venue.okx.client fun _ => none) reportingConfig {}
        [.connected { now := 0 }, .sent { now := 1 }, .sent { now := 2 },
          .signal]).Truthful reportingConfig := by
  simp only [Client.truthful_iff]
  decide

end Cryptomeria
