import Cryptomeria.Client.Active
import Cryptomeria.Client.Depth
import Cryptomeria.Main.Alone

/-!
# In the middle of a handler

A handler writes its updates one at a time, and the endpoints may be asked in between. What they
find then is what the client had written before, and some first updates of the handler that is at
work (`Process.midway_run`). So two things hold at every moment. The sizes of a status entry are the
two totals of one book, and of one that is at most one event old (`Process.sizes_run`). And every
gauge has its value from a book that the client has held since the task was spawned
(`Process.gauges_run`).
-/

set_option autoImplicit false

namespace Cryptomeria

/-! ## What a handler writes -/

/-- The book gives this value to the gauge. The time of the last update is not in the book. -/
def OrderBook.Gives (b : OrderBook) : Gauge → F64 → Prop
  | .bestBid, value => b.bestBid = some value
  | .bestAsk, value => b.bestAsk = some value
  | .spread, value => b.spread = some value
  | .lastUpdate, value => ∃ now : ℕ, value = .fin now

/-- What a client writes that holds this book. -/
inductive Update.FromBook (b : OrderBook) : Update → Prop
  | gauge {g : Gauge} {value : F64} (h : b.Gives g value) : FromBook b (.gauge g value)
  | sizes (now : ℕ) : FromBook b (.sizes now b.totalBidSize b.totalAskSize)
  | depth {s : Side} {price size : F64} (h : (b.side s)[price]? = some size) :
      FromBook b (.depth s price size)
  | trade : FromBook b .trade
  | lastPrice (now : ℕ) (price : F64) : FromBook b (.lastPrice now price)
  /-- a new entry, when a connection opens or fails -/
  | blank {st : ClientStatus} (h : st.Blank) : FromBook b (.status st)

/-- The handlers write what the book says that they leave, trades and prices. -/
structure ClientSpec.Updates.TellBook {c : ClientSpec} (u : c.Updates) : Prop where
  message : ∀ cfg stamp msg before after, ∀ up ∈ u.message cfg stamp msg before after,
    up.FromBook (c.book after)
  answer : ∀ cfg stamp a before after, ∀ up ∈ u.answer cfg stamp a before after,
    up.FromBook (c.book after)

section Handlers

open Update (FromBook)

variable {b : OrderBook}

theorem fromBook_nil : ∀ up ∈ ([] : List Update), up.FromBook b := by
  intro up h
  cases h

theorem fromBook_append {us vs : List Update} (hu : ∀ up ∈ us, up.FromBook b)
    (hv : ∀ up ∈ vs, up.FromBook b) : ∀ up ∈ us ++ vs, up.FromBook b :=
  List.forall_mem_append.mpr ⟨hu, hv⟩

theorem fromBook_gauge {g : Gauge} {value : Option F64} (h : ∀ v ∈ value, b.Gives g v) :
    ∀ up ∈ (value.map (Update.gauge g)).toList, up.FromBook b := by
  intro up hup
  cases value with
  | none => cases hup
  | some v =>
    rw [List.mem_singleton.mp hup]
    exact .gauge (h v rfl)

theorem fromBook_depth (s : Side) :
    ∀ up ∈ (b.side s).toList.map (fun l => Update.depth s l.1 l.2), up.FromBook b := by
  intro up hup
  obtain ⟨l, hl, rfl⟩ := List.mem_map.mp hup
  exact .depth (Std.ExtTreeMap.mem_toList_iff_getElem?_eq_some.mp hl)

theorem fromBook_publishUpdates (now : ℕ) (b : OrderBook) :
    ∀ up ∈ publishUpdates now b, up.FromBook b := by
  have hlast : ∀ up ∈ [Update.gauge .lastUpdate (.fin now),
      .sizes now b.totalBidSize b.totalAskSize], up.FromBook b := by
    intro up hup
    rcases List.mem_pair.mp hup with rfl | rfl
    · exact .gauge ⟨now, rfl⟩
    · exact .sizes now
  have htop := fromBook_append (fromBook_append
    (@fromBook_gauge b .bestBid b.bestBid fun _ h => h)
    (@fromBook_gauge b .bestAsk b.bestAsk fun _ h => h))
    (@fromBook_gauge b .spread b.spread fun _ h => h)
  exact fromBook_append (fromBook_append htop hlast)
    (fromBook_append (fromBook_depth .bid) (fromBook_depth .ask))

theorem fromBook_trade : ∀ up ∈ [Update.trade], up.FromBook b := by
  intro up h
  rw [List.mem_singleton.mp h]
  exact .trade

theorem fromBook_lastPrice (now : ℕ) (price : Option F64) :
    ∀ up ∈ (price.map (Update.lastPrice now)).toList, up.FromBook b := by
  intro up h
  cases price with
  | none => cases h
  | some px =>
    rw [List.mem_singleton.mp h]
    exact .lastPrice now px

theorem Okx.tellBook : Okx.updates.TellBook where
  message cfg stamp msg _ book := by
    show ∀ up ∈ messageUpdates cfg stamp msg book, up.FromBook book
    refine fromBook_append ?_ ?_
    · cases msg.messageType with
      | l2Snapshot | l2Update | l2 => exact fromBook_publishUpdates _ _
      | trade | event | unknown =>
        cases firstTrade msg with
        | none => exact fromBook_nil
        | some trade => exact fromBook_append fromBook_trade (fromBook_lastPrice _ _)
    · split
      · unfold persistUpdates
        cases msg.messageType with
        | trade =>
          cases firstTrade msg with
          | none => exact fromBook_nil
          | some trade =>
            dsimp only
            split
            · exact fromBook_lastPrice _ (some _)
            · exact fromBook_nil
        | l2Snapshot | l2Update | l2 | event | unknown => exact fromBook_nil
      · exact fromBook_nil
  answer _ _ a := a.elim

theorem Kraken.tellBook (rfc3339 : String → Option ℤ) : (Kraken.updates rfc3339).TellBook where
  message _ stamp msg _ book := by
    show ∀ up ∈ messageUpdates stamp msg book, up.FromBook book
    unfold messageUpdates
    cases msg.messageType with
    | l2Snapshot | l2Update | l2 => exact fromBook_publishUpdates _ _
    | trade =>
      refine fromBook_append fromBook_trade ?_
      cases firstTrade msg with
      | none => exact fromBook_nil
      | some trade => exact fromBook_lastPrice _ (some _)
    | event | status | heartbeat | unknown => exact fromBook_nil
  answer _ _ a := a.elim

theorem Bitstamp.tellBook : Bitstamp.updates.TellBook where
  message cfg stamp msg before after := by
    have hpersist : ∀ up ∈ persistUpdates cfg stamp msg, up.FromBook (client.book after) := by
      unfold persistUpdates
      split
      · split
        · exact fromBook_lastPrice _ (some _)
        · exact fromBook_nil
      · exact fromBook_nil
    show ∀ up ∈ messageUpdates cfg stamp msg before after, up.FromBook (client.book after)
    unfold messageUpdates
    split
    · cases msg.messageType with
      | trade =>
        exact fromBook_append (fromBook_append fromBook_trade hpersist) (fromBook_lastPrice _ _)
      | l2Update | event | unknown | l2Snapshot => exact fromBook_nil
    · refine fromBook_append ?_ hpersist
      cases msg.messageType with
      | l2Snapshot | l2Update => exact fromBook_publishUpdates _ _
      | trade =>
        refine fromBook_append fromBook_trade ?_
        cases tradeOf msg with
        | none => exact fromBook_nil
        | some trade => exact fromBook_lastPrice _ (some _)
      | event | unknown => exact fromBook_nil
  answer _ stamp a _ after := by
    cases a with
    | ok snapshot => exact fromBook_publishUpdates _ _
    | badJson | failed => exact fromBook_nil

theorem Venue.tellBook (rfc3339 : String → Option ℤ) (x : Venue) :
    (x.updates rfc3339).TellBook := by
  cases x with
  | okx => exact Okx.tellBook
  | kraken => exact Kraken.tellBook rfc3339
  | bitstamp => exact Bitstamp.tellBook

end Handlers

/-! ## What a step writes -/

theorem fromBook_activeUpdate (b : OrderBook) (now : ℕ) (active : Bool) (detail : String) :
    ∀ up ∈ [activeUpdate now active detail], up.FromBook b := by
  intro up h
  rw [List.mem_singleton.mp h]
  exact .blank ⟨⟨OrderBook.totalBidSize_new.symm, OrderBook.totalAskSize_new.symm⟩, rfl⟩

section Steps

variable {c : ClientSpec} {u : c.Updates} {cfg : Config}

/-- What a handler writes tells the book that it leaves. -/
theorem Conn.updates_step (hu : u.TellBook) {filter : Option LobFilter} (st : Conn c × World)
    (e : ConnEvent c) :
    ∀ up ∈ st.1.updates u cfg filter e, up.FromBook (c.book (step cfg filter st e).1.session) := by
  have heffect : Effect cfg filter st.1 st.2 e (step cfg filter st e) := step_effect st e
  generalize step cfg filter st e = st' at heffect
  intro up hup
  cases heffect with
  | quiet hreads htakes _ _ =>
    cases e with
    | arrive item => cases hup
    | poll stamp =>
      simp only [updates, hreads] at hup
      cases hup
    | answer stamp a =>
      simp only [updates, htakes] at hup
      cases hup
  | message hreads hsession _ =>
    simp only [updates, hreads] at hup
    rw [hsession]
    exact hu.message _ _ _ _ _ up hup
  | answer htakes hsession _ =>
    simp only [updates, htakes] at hup
    rw [hsession]
    exact hu.answer _ _ _ _ _ up hup

theorem Conn.keepsEntry_updates (hu : u.KeepsEntry) {filter : Option LobFilter} {conn : Conn c}
    {e : ConnEvent c} : KeepsEntry (conn.updates u cfg filter e) := by
  unfold updates
  split
  · exact .nil
  · split
    · exact hu.message _ _ _ _ _
    · exact .nil
  · split
    · exact hu.answer _ _ _ _ _
    · exact .nil

/-- A message does not end the connection. -/
theorem Conn.ending_of_reads {filter : Option LobFilter} {conn : Conn c} {stamp : Stamp}
    {msg : c.Msg} (w : World) (h : conn.reads (.poll stamp) = some msg) :
    (step cfg filter (conn, w) (.poll stamp)).1.ending = none := by
  simp only [reads] at h
  split at h
  · rename_i hready
    obtain ⟨item, hitem, hmsg⟩ := Option.bind_eq_some_iff.mp h
    obtain ⟨rest, hsocket⟩ : ∃ rest, conn.socket = item :: rest :=
      List.head?_eq_some_iff.mp hitem
    have hopen : conn.ending = none := by
      simp only [ready, Bool.and_eq_true, Option.isNone_iff_eq_none] at hready
      exact hready.1
    simp only [step, hready, hsocket]
    cases item with
    | text raw parsed =>
      cases parsed with
      | none => cases hmsg
      | some msg => exact hopen
    | done | error | close | ping | pong | binary | frame => cases hmsg
  · cases h

namespace Client

/-- The updates of a step tell the book that the client then holds. -/
theorem updates_step (hu : u.TellBook) (st : Client c) (e : Event c) :
    ∀ up ∈ st.updates u cfg e, up.FromBook (c.book (st.step cfg e).conn.session) := by
  unfold updates
  split
  · exact fromBook_activeUpdate _ _ _ _
  · cases c.connectErrorDetail (st.attempt + 1) with
    | none => exact fromBook_nil
    | some detail => exact fromBook_activeUpdate _ _ _ _
  · exact fromBook_activeUpdate _ _ _ _
  · rename_i e hphase
    have hconn : (st.step cfg (.link e)).conn
        = (Conn.step cfg cfg.lobFilter (st.conn, st.world) e).1 := by
      simp only [step, hphase]
      exact read_conn cfg st e
    rw [hconn]
    refine fromBook_append (Conn.updates_step hu (st.conn, st.world) e) ?_
    cases e with
    | arrive | answer => exact fromBook_nil
    | poll stamp =>
      dsimp only
      split
      · exact fromBook_activeUpdate _ _ _ _
      · exact fromBook_nil
  · exact fromBook_nil

/-- A new entry is written on the way to a phase without a book. -/
theorem bookless_of_status (hu : u.KeepsEntry) {st : Client c} {e : Event c} {new : ClientStatus}
    (h : .status new ∈ st.updates u cfg e) : (st.step cfg e).phase.bookless = true := by
  unfold updates at h
  split at h
  · rename_i hphase
    simp only [step, hphase]
    rfl
  · rename_i hphase
    simp only [step, hphase]
    rfl
  · rename_i hphase
    simp only [step, hphase]
    rfl
  · rename_i e hphase
    rcases List.mem_append.mp h with hhandler | hending
    · exact absurd (Conn.keepsEntry_updates hu _ hhandler) (by simp [Update.isStatus])
    · cases e with
      | arrive | answer => cases hending
      | poll stamp =>
        dsimp only at hending
        split at hending
        · rename_i hdisconnected
          simp only [step, hphase, read, hdisconnected.1, hdisconnected.2]
          rfl
        · cases hending
  · cases h

/-- All that is no new entry is written by a handler. -/
theorem exists_handler {st : Client c} {e : Event c} {up : Update} (h : up ∈ st.updates u cfg e)
    (hup : up.isStatus = false) :
    ∃ e', e = .link e' ∧ st.phase = .reading ∧ up ∈ st.conn.updates u cfg cfg.lobFilter e' := by
  have hactive : ∀ {now : ℕ} {active : Bool} {detail : String},
      up ≠ activeUpdate now active detail := by
    rintro now active detail rfl
    cases hup
  unfold updates at h
  split at h
  · exact absurd (List.mem_singleton.mp h) hactive
  · cases hdetail : c.connectErrorDetail (st.attempt + 1) with
    | none => simp [hdetail] at h
    | some detail =>
      rw [hdetail] at h
      exact absurd (List.mem_singleton.mp h) hactive
  · exact absurd (List.mem_singleton.mp h) hactive
  · rename_i e hphase
    refine ⟨e, rfl, hphase, ?_⟩
    rcases List.mem_append.mp h with hhandler | hending
    · exact hhandler
    · cases e with
      | arrive | answer => cases hending
      | poll stamp =>
        dsimp only at hending
        split at hending
        · exact absurd (List.mem_singleton.mp hending) hactive
        · cases hending
  · cases h

/-- A handler leaves the client with its book. -/
theorem not_bookless_of_mem {st : Client c} {e : Event c} {up : Update}
    (h : up ∈ st.updates u cfg e) (hup : up.isStatus = false) :
    (st.step cfg e).phase.bookless = false := by
  obtain ⟨e, rfl, hphase, hhandler⟩ := exists_handler h hup
  simp only [step, hphase]
  cases e with
  | arrive item => cases hhandler
  | answer stamp a =>
    simp only [read]
    split
    · rfl
    · exact congrArg Phase.bookless hphase
  | poll stamp =>
    cases hreads : st.conn.reads (.poll stamp) with
    | none =>
      simp only [Conn.updates, hreads] at hhandler
      cases hhandler
    | some msg =>
      simp only [read, Conn.ending_of_reads st.world hreads]
      split
      · rfl
      · exact congrArg Phase.bookless hphase

/-- Where a task stands in the run of its client: the handlers are through, or the handler of the
last event has written some first updates. -/
inductive Midway (u : c.Updates) (cfg : Config) (w : World) :
    List (Event c) → Slice → List Update → Prop
  | through (own : List (Event c)) : Midway u cfg w own ((run c cfg w own).slice cfg) []
  | handling (own : List (Event c)) (e : Event c) {written pending : List Update}
      (hupdates : (run c cfg w own).updates u cfg e = written ++ pending) :
      Midway u cfg w (own ++ [e]) (written.foldl Slice.apply ((run c cfg w own).slice cfg)) pending

variable {w : World} {own : List (Event c)} {sl : Slice} {up : Update} {pending : List Update}

theorem Midway.write (h : Midway u cfg w own sl (up :: pending)) :
    Midway u cfg w own (sl.apply up) pending := by
  cases h with
  | handling own e hupdates =>
    rename_i written
    have hnext : (run c cfg w own).updates u cfg e = (written ++ [up]) ++ pending := by
      rw [hupdates, List.append_assoc, List.singleton_append]
    have hwritten := Midway.handling (w := w) own e hnext
    rwa [List.foldl_concat] at hwritten

theorem Midway.handle (e : Event c) :
    Midway u cfg w (own ++ [e]) ((run c cfg w own).slice cfg)
      ((run c cfg w own).updates u cfg e) :=
  @Midway.handling c u cfg w own e [] _ rfl

/-! ## The sizes -/

/-- What the sizes of the entry are while the client is in this state. -/
structure Displays (st : Client c) (entry : ClientStatus) : Prop where
  either : entry.Shows OrderBook.new ∨ entry.Shows (c.book st.conn.session)
  blank : st.phase.bookless = true → entry.Shows OrderBook.new
  book : st.phase = .reading → entry.Shows (c.book st.conn.session)

variable {st : Client c} {entry : ClientStatus}

theorem Mirrors.displays (h : st.Mirrors cfg) (hentry : entry ∈ st.world.entry cfg) :
    st.Displays entry where
  blank hphase := (h.showsBlank hphase entry hentry).sizes
  book hphase := h.showsBook hphase entry hentry
  either := by
    cases hphase : st.phase with
    | connecting | subscribing | sleeping =>
      exact Or.inl (h.showsBlank (by rw [hphase]; rfl) entry hentry).sizes
    | reading => exact Or.inr (h.showsBook hphase entry hentry)
    | returned | panicked =>
      rw [Mirrors, hphase] at h
      exact h.imp (fun h => (h entry hentry).sizes) fun h => h entry hentry

theorem displays_of_bookless (hphase : st.phase.bookless = true)
    (h : entry.Shows OrderBook.new) : st.Displays entry where
  either := Or.inl h
  blank _ := h
  book hreading := by
    rw [hreading] at hphase
    cases hphase

theorem displays_of_not_bookless (hphase : st.phase.bookless = false)
    (h : entry.Shows (c.book st.conn.session)) : st.Displays entry where
  either := Or.inr h
  blank hbookless := by
    rw [hphase] at hbookless
    cases hbookless
  book _ := h

theorem Displays.congr {before : ClientStatus} (h : st.Displays before)
    (hsame : ∀ b, before.Shows b → entry.Shows b) : st.Displays entry :=
  ⟨h.either.imp (hsame _) (hsame _), fun hp => hsame _ (h.blank hp), fun hp => hsame _ (h.book hp)⟩

/-- An update keeps the sizes of the entry, or sets them to what the client will show. -/
theorem displays_apply (hu : u.TellBook) (hkeeps : u.KeepsEntry) {e : Event c} {up : Update}
    (hup : up ∈ st.updates u cfg e) {sl : Slice}
    (hentry : entry ∈ (sl.apply up).status) :
    (st.step cfg e).Displays entry ∨
      ∃ before ∈ sl.status, ∀ b, before.Shows b → entry.Shows b := by
  have htells := updates_step hu st e up hup
  cases htells with
  | gauge | depth | trade => exact Or.inr ⟨entry, hentry, fun _ h => h⟩
  | lastPrice now price =>
    obtain ⟨before, hbefore, rfl⟩ := Option.mem_map.mp hentry
    exact Or.inr ⟨before, hbefore, fun _ h => ⟨h.bidSize, h.askSize⟩⟩
  | sizes now =>
    obtain ⟨before, -, rfl⟩ := Option.mem_map.mp hentry
    exact Or.inl (displays_of_not_bookless (not_bookless_of_mem hup rfl) ⟨rfl, rfl⟩)
  | blank hblank =>
    rw [← Option.some.inj hentry]
    exact Or.inl (displays_of_bookless (bookless_of_status hkeeps hup) hblank.sizes)

/-- What the entry shows in the middle of a handler is what it shows before or after: if in every
state of the run it shows `D`, and an update makes it show what the next state does or keeps it. -/
theorem Midway.shown {D : Client c → ClientStatus → Prop}
    (hrun : ∀ own, ∀ entry ∈ ((run c cfg w own).slice cfg).status, D (run c cfg w own) entry)
    (happly : ∀ own e up, up ∈ (run c cfg w own).updates u cfg e →
      ∀ (sl : Slice), ∀ entry ∈ (sl.apply up).status, D ((run c cfg w own).step cfg e) entry ∨
        ∃ before ∈ sl.status, ∀ st, D st before → D st entry)
    (h : Midway u cfg w own sl pending) (hentry : entry ∈ sl.status) :
    ∃ pre, pre <+: own ∧ own.length ≤ pre.length + 1 ∧ D (run c cfg w pre) entry := by
  cases h with
  | through own => exact ⟨own, List.prefix_rfl, by omega, hrun own entry hentry⟩
  | handling own e hupdates =>
    rename_i written
    have hnext : (run c cfg w own).step cfg e = run c cfg w (own ++ [e]) := by
      rw [run, run, List.foldl_concat]
    -- along what is written, the entry shows what it did before until it shows what it will
    have hwritten : ∀ entry ∈ (written.foldl Slice.apply ((run c cfg w own).slice cfg)).status,
        D (run c cfg w own) entry ∨ D (run c cfg w (own ++ [e])) entry := by
      refine (Trace.always_of_inductive
        (I := fun sl : Slice => ∀ entry ∈ sl.status,
          D (run c cfg w own) entry ∨ D (run c cfg w (own ++ [e])) entry)
        (H := (· ∈ (run c cfg w own).updates u cfg e)) ?_ ?_ ?_).last
      · exact fun entry h => Or.inl (hrun own entry h)
      · intro up hup
        rw [hupdates]
        exact List.mem_append_left _ hup
      · intro sl up hsl hup entry hentry
        rcases happly own e up hup sl entry hentry with hafter | ⟨before, hbefore, hsame⟩
        · rw [hnext] at hafter
          exact Or.inr hafter
        · exact (hsl before hbefore).imp (hsame _) (hsame _)
    rcases hwritten entry hentry with hbefore | hafter
    · exact ⟨own, List.prefix_append own [e], by simp, hbefore⟩
    · exact ⟨own ++ [e], List.prefix_rfl, by omega, hafter⟩

/-- In the middle of a handler the sizes are those of before or of after. -/
theorem Midway.displays (hu : u.TellBook) (hkeeps : u.KeepsEntry) (hc : c.Mirrors)
    (hstatus : cfg.statusHandle = true) (hw : w.ShowsBlank cfg)
    (h : Midway u cfg w own sl pending) (hentry : entry ∈ sl.status) :
    ∃ pre, pre <+: own ∧ own.length ≤ pre.length + 1 ∧ (run c cfg w pre).Displays entry := by
  refine h.shown (D := Displays) (fun own _ h => (mirrors_run hc hstatus hw own).displays h) ?_
    hentry
  intro own e up hup sl entry hentry
  refine (displays_apply hu hkeeps hup hentry).imp_right ?_
  rintro ⟨before, hbefore, hsame⟩
  exact ⟨before, hbefore, fun _ h => h.congr hsame⟩

end Client

/-! ## The gauges -/

theorem Slice.gauge_apply_gauge (sl : Slice) (g g' : Gauge) (value : F64) :
    (sl.apply (.gauge g' value)).gauge g = if g = g' then some value else sl.gauge g :=
  Function.update_apply _ _ _ _

theorem Slice.depth_apply_depth (sl : Slice) (s s' : Side) (label : String) (price size : F64) :
    (sl.apply (.depth s' price size)).depth s label
      = if s = s' ∧ label = formatFixed 2 price then some size else sl.depth s label := by
  show Function.update sl.depth s' _ s label = _
  by_cases hs : s = s'
  · subst hs
    rw [Function.update_self, Function.update_apply]
    simp
  · rw [Function.update_of_ne hs]
    simp [hs]

/-- The gauges have their values from these books. -/
structure Slice.GaugesOf (held : OrderBook → Prop) (sl : Slice) : Prop where
  gauge : ∀ g value, sl.gauge g = some value → ∃ b, held b ∧ b.Gives g value
  depth : ∀ s label size, sl.depth s label = some size →
    ∃ b price, held b ∧ (b.side s)[price]? = some size ∧ formatFixed 2 price = label

namespace Slice.GaugesOf

variable {held held' : OrderBook → Prop} {sl : Slice} {b : OrderBook} {up : Update}

theorem mono (h : sl.GaugesOf held) (hheld : ∀ b, held b → held' b) : sl.GaugesOf held' where
  gauge g value hvalue :=
    let ⟨b, hb, hgives⟩ := h.gauge g value hvalue
    ⟨b, hheld b hb, hgives⟩
  depth s label size hsize :=
    let ⟨b, price, hb, hlevel⟩ := h.depth s label size hsize
    ⟨b, price, hheld b hb, hlevel⟩

theorem apply (h : sl.GaugesOf held) (hb : held b) (hup : up.FromBook b) :
    (sl.apply up).GaugesOf held := by
  cases hup with
  | sizes | trade | lastPrice | blank => exact ⟨h.gauge, h.depth⟩
  | gauge hgives =>
    refine ⟨?_, h.depth⟩
    intro g value hvalue
    rw [gauge_apply_gauge] at hvalue
    split at hvalue
    · rename_i hg
      rw [hg, ← Option.some.inj hvalue]
      exact ⟨b, hb, hgives⟩
    · exact h.gauge g value hvalue
  | depth hlevel =>
    refine ⟨h.gauge, ?_⟩
    intro s label size hsize
    rename_i price _
    rw [depth_apply_depth] at hsize
    split at hsize
    · rename_i hlabels
      rw [hlabels.1, hlabels.2, ← Option.some.inj hsize]
      exact ⟨b, price, hb, hlevel, rfl⟩
    · exact h.depth s label size hsize

theorem foldl_apply (h : sl.GaugesOf held) (hb : held b) {us : List Update}
    (hus : ∀ up ∈ us, up.FromBook b) : (us.foldl Slice.apply sl).GaugesOf held :=
  (Trace.always_of_inductive (I := fun sl : Slice => sl.GaugesOf held) h hus
    fun _ _ hsl hup => hsl.apply hb hup).last

end Slice.GaugesOf

namespace Client

/-- The client held this book at some time of its run. -/
def Held (cfg : Config) (w : World) (own : List (Event c)) (b : OrderBook) : Prop :=
  ∃ pre, pre <+: own ∧ b = c.book (run c cfg w pre).conn.session

variable {w : World} {own : List (Event c)}

theorem Held.now : Held cfg w own (c.book (run c cfg w own).conn.session) :=
  ⟨own, List.prefix_rfl, rfl⟩

theorem Held.later {b : OrderBook} (h : Held cfg w own b) (e : Event c) :
    Held cfg w (own ++ [e]) b :=
  let ⟨pre, hpre, hb⟩ := h
  ⟨pre, hpre.trans (List.prefix_append own [e]), hb⟩

theorem gaugesOf_handler (hu : u.TellBook) (e : Event c) {us : List Update} {sl : Slice}
    (hus : ∀ up ∈ us, up ∈ (run c cfg w own).updates u cfg e) (h : sl.GaugesOf (Held cfg w own)) :
    (us.foldl Slice.apply sl).GaugesOf (Held cfg w (own ++ [e])) := by
  have hnext : (run c cfg w own).step cfg e = run c cfg w (own ++ [e]) := by
    rw [run, run, List.foldl_concat]
  refine (h.mono fun b hb => hb.later e).foldl_apply Held.now fun up hup => ?_
  rw [← hnext]
  exact updates_step hu _ e up (hus up hup)

theorem gaugesOf_run (hu : u.TellBook) (hstatus : cfg.statusHandle = true)
    (hw : ((start c cfg w).slice cfg).GaugesOf (Held cfg w ([] : List (Event c))))
    (own : List (Event c)) : ((run c cfg w own).slice cfg).GaugesOf (Held cfg w own) := by
  induction own using List.reverseRecOn with
  | nil => exact hw
  | append_singleton own e ih =>
    have hslice := slice_step u hstatus (run c cfg w own) e
    have hhandler := gaugesOf_handler hu e (fun up h => h) ih
    rw [← hslice] at hhandler
    rwa [run, List.foldl_concat]

/-- In the middle of a handler, too, the gauges have their values from books of the run. -/
theorem Midway.gaugesOf (hu : u.TellBook) (hstatus : cfg.statusHandle = true)
    (hw : ((start c cfg w).slice cfg).GaugesOf (Held cfg w ([] : List (Event c)))) {sl : Slice}
    {pending : List Update} (h : Midway u cfg w own sl pending) :
    sl.GaugesOf (Held cfg w own) := by
  cases h with
  | through own => exact gaugesOf_run hu hstatus hw own
  | handling own e hupdates =>
    refine gaugesOf_handler hu e (fun up hup => ?_) (gaugesOf_run hu hstatus hw own)
    rw [hupdates]
    exact List.mem_append_left _ hup

theorem Midway.isSome_status (hstatus : cfg.statusHandle = true) (hw : (w.entry cfg).isSome)
    {sl : Slice} {pending : List Update} (h : Midway u cfg w own sl pending) :
    sl.status.isSome := by
  cases h with
  | through own => exact isSome_status_run u hstatus hw own
  | handling own e _ => exact isSome_status_foldl _ (isSome_status_run u hstatus hw own)

end Client

end Steps

/-! ## One task -/

namespace Task

variable {c : ClientSpec} {u : c.Updates} {uni : Unicode} {cli : CliArgs}
  {ri : ResolvedInstrument}

/-- Where a running task stands in the run of its client. -/
def Midway (u : c.Updates) (uni : Unicode) (cli : CliArgs) (ri : ResolvedInstrument) (sl : Slice) :
    Task c → Prop
  | .notSpawned | .panicked => True
  | .running wsUrl sender client pending =>
    let cfg := cli.config uni ri wsUrl sender
    ∃ own, client = Client.run c cfg (startingWorld ri) own ∧
      Client.Midway u cfg (startingWorld ri) own sl pending

theorem midway_step {sh : Shared} {task : Task c}
    (hreports : Reports uni cli ri (sh.slice ri.exchange ri.cliInstId) task)
    (h : Midway u uni cli ri (sh.slice ri.exchange ri.cliInstId) task) (e : TaskEvent c) :
    Midway u uni cli ri ((step u uni cli ri (sh, task) e).1.slice ri.exchange ri.cliInstId)
      (step u uni cli ri (sh, task) e).2 := by
  cases task with
  | panicked => trivial
  | notSpawned =>
    cases e with
    | handle | write => trivial
    | spawn sender =>
      -- what is reported after the step is what the client has that it starts
      have hnext := reports_step (u := u) hreports (.spawn sender)
      simp only [step] at hnext ⊢
      cases hurl : websocketUrl ri.region ri.exchange with
      | none => trivial
      | some wsUrl =>
        rw [hurl] at hnext
        obtain ⟨-, -, hslice⟩ := hnext
        refine ⟨[], rfl, ?_⟩
        show Client.Midway u _ _ [] _ []
        rw [show Shared.slice ri.exchange ri.cliInstId _ = _ from hslice]
        exact .through []
  | running wsUrl sender client pending =>
    cases pending with
    | nil =>
      cases e with
      | spawn | write => exact h
      | handle e =>
        obtain ⟨-, ⟨own, hrun⟩, hslice⟩ := hreports
        refine ⟨own ++ [e], ?_, ?_⟩
        · rw [hrun, Client.run, Client.run, List.foldl_concat]
        · show Client.Midway u _ _ (own ++ [e]) (sh.slice ri.exchange ri.cliInstId)
            (client.updates u _ e)
          rw [show sh.slice ri.exchange ri.cliInstId = _ from hslice, hrun]
          exact .handle e
    | cons up pending =>
      cases e with
      | spawn | handle => exact h
      | write =>
        obtain ⟨own, hrun, hmidway⟩ := h
        refine ⟨own, hrun, ?_⟩
        have hown : (sh.apply (cli.config uni ri wsUrl sender) up).slice ri.exchange ri.cliInstId
            = (sh.slice ri.exchange ri.cliInstId).apply up :=
          Shared.slice_apply_own (cli.config uni ri wsUrl sender) sh up
        have hwrite := hmidway.write
        rwa [← hown] at hwrite

end Task

theorem gaugesOf_startingWorld {c : ClientSpec} {cfg : Config} (ri : ResolvedInstrument)
    (held : OrderBook → Prop) :
    ((Client.start c cfg (startingWorld ri)).slice cfg).GaugesOf held where
  gauge g value h := by
    have hnone : ((Client.start c cfg (startingWorld ri)).slice cfg).gauge g = none := by
      cases g <;> exact Std.ExtTreeMap.getElem?_empty
    rw [hnone] at h
    cases h
  depth s label size h := by
    have hnone : ((Client.start c cfg (startingWorld ri)).slice cfg).depth s label = none := by
      cases s <;> exact Std.ExtTreeMap.getElem?_empty
    rw [hnone] at h
    cases h

/-- What `/metrics` says about the book comes from these books. -/
structure MetricsEntry.TakenFrom (held : OrderBook → Prop) (m : MetricsEntry) : Prop where
  bestBid : ∀ value ∈ m.bestBid, ∃ b, held b ∧ b.bestBid = some value
  bestAsk : ∀ value ∈ m.bestAsk, ∃ b, held b ∧ b.bestAsk = some value
  spread : ∀ value ∈ m.spread, ∃ b, held b ∧ b.spread = some value
  depth : ∀ e ∈ m.depth, ∃ b price, held b ∧ (b.side e.side)[price]? = some e.volume ∧
    e.price = shownPrice price

theorem takenFrom_entry {held : OrderBook → Prop} {sh : Shared} {exchange instrument : String}
    (h : (sh.slice exchange instrument).GaugesOf held) :
    (sh.metrics.entry exchange instrument).TakenFrom held := by
  by_cases hname : exchange = "" ∨ instrument = ""
  · -- nothing is reported
    rw [LobMetrics.entry, if_pos hname]
    refine ⟨?_, ?_, ?_, ?_⟩
    · intro value hvalue
      cases hvalue
    · intro value hvalue
      cases hvalue
    · intro value hvalue
      cases hvalue
    · intro e he
      cases he
  · rw [LobMetrics.entry, if_neg hname]
    refine ⟨h.gauge .bestBid, h.gauge .bestAsk, h.gauge .spread, ?_⟩
    intro e he
    obtain ⟨hexchange, hinstrument⟩ := not_or.mp hname
    obtain ⟨label, size, hsize, hprice, rfl⟩ :=
      (LobMetrics.mem_depthEntries hexchange hinstrument).mp he
    obtain ⟨b, price, hb, hlevel, rfl⟩ := h.depth e.side label e.volume hsize
    exact ⟨b, price, hb, hlevel, hprice⟩

/-! ## All tasks -/

namespace Process

variable {rfc3339 : String → Option ℤ} {uni : Unicode} {cli : CliArgs}
  {tasks : List ResolvedInstrument} {i : Fin tasks.length}
  (hkey : ∀ j, j ≠ i → (instrumentOf j).statusKey ≠ (instrumentOf i).statusKey)
  (es : List (ProcessEvent rfc3339 tasks)) {wsUrl : String} {sender : Bool}
  {client : Client ((instrumentOf i).venue.client rfc3339)} {pending : List Update}
include hkey

/-- What stands under the labels of a task is what its client alone had written before its last
event, and some first updates of the handler of that event. -/
theorem midway_run (htask : (run uni cli es).task i = .running wsUrl sender client pending) :
    ∃ own, client = Client.run _ (cli.config uni (instrumentOf i) wsUrl sender)
        (startingWorld (instrumentOf i)) own ∧
      Client.Midway ((instrumentOf i).venue.updates rfc3339)
        (cli.config uni (instrumentOf i) wsUrl sender) (startingWorld (instrumentOf i)) own
        ((run uni cli es).shared.slice (instrumentOf i).exchange (instrumentOf i).cliInstId)
        pending := by
  have h := @invariant_run _ uni cli _ i hkey
    (fun sl task => Task.Reports uni cli (instrumentOf i) sl task ∧
      Task.Midway ((instrumentOf i).venue.updates rfc3339) uni cli (instrumentOf i) sl task)
    ⟨rfl, trivial⟩ (fun _ _ e h => ⟨Task.reports_step h.1 e, Task.midway_step h.1 h.2 e⟩) es
  rw [htask] at h
  exact h.2

/-- A running task has an entry in `/status`. -/
theorem entry_run (htask : (run uni cli es).task i = .running wsUrl sender client pending) :
    ∃ entry, ((run uni cli es).report i).status = some entry := by
  obtain ⟨own, -, hmidway⟩ := midway_run hkey es htask
  apply Option.isSome_iff_exists.mp
  refine hmidway.isSome_status rfl ?_
  rw [entry_startingWorld]
  rfl

/-- **The sizes of `/status` are never torn and never old.** At every moment of every interleaving,
also while a handler is at work, `/status` has an entry for a running task whose key is its own. Its
two sizes are those of one state of the client, the last or the last but one. -/
theorem sizes_run (htask : (run uni cli es).task i = .running wsUrl sender client pending) :
    ∃ own, client = Client.run _ (cli.config uni (instrumentOf i) wsUrl sender)
        (startingWorld (instrumentOf i)) own ∧
      ∃ entry, ((run uni cli es).report i).status = some entry ∧
        ∃ pre, pre <+: own ∧ own.length ≤ pre.length + 1 ∧
          (Client.run _ (cli.config uni (instrumentOf i) wsUrl sender)
            (startingWorld (instrumentOf i)) pre).Displays entry := by
  obtain ⟨own, hrun, hmidway⟩ := midway_run hkey es htask
  obtain ⟨entry, hentry⟩ := entry_run hkey es htask
  refine ⟨own, hrun, entry, hentry, ?_⟩
  exact hmidway.displays ((instrumentOf i).venue.tellBook rfc3339)
    ((instrumentOf i).venue.keepsEntry rfc3339) ((instrumentOf i).venue.mirrors rfc3339) rfl
    showsBlank_startingWorld hentry

/-- Nothing of the snapshot is written yet. -/
def publishingRun : List (ProcessEvent (fun _ => none) twoTasks) :=
  twoTasksRun false ++ snapshotEvents.map firstHandles

omit hkey in
theorem sizes_run_publishing :
    ∃ entry, ((run .ascii {} publishingRun).report firstTask).status = some entry ∧
      ∃ own pre, pre <+: own ∧ own.length ≤ pre.length + 1 ∧
        (Client.run ((instrumentOf firstTask).venue.client fun _ => none) (firstConfig false)
          (startingWorld (instrumentOf firstTask)) pre).Displays entry := by
  obtain ⟨own, -, entry, hentry, pre, hpre, hlength, hdisplays⟩ :=
    @sizes_run (fun _ => none) .ascii {} _ firstTask (by decide +kernel) publishingRun _ _ _ _ rfl
  exact ⟨entry, hentry, own, pre, hpre, hlength, hdisplays⟩

/-- **`/metrics` makes nothing up.** At every moment of every interleaving the best prices, the
spread and the depth that are reported for a running task whose key is its own come from books that
its client has held since it was spawned. -/
theorem gauges_run (htask : (run uni cli es).task i = .running wsUrl sender client pending) :
    ∃ own, client = Client.run _ (cli.config uni (instrumentOf i) wsUrl sender)
        (startingWorld (instrumentOf i)) own ∧
      ((run uni cli es).report i).metrics.TakenFrom
        (Client.Held (cli.config uni (instrumentOf i) wsUrl sender)
          (startingWorld (instrumentOf i)) own) := by
  obtain ⟨own, hrun, hmidway⟩ := midway_run hkey es htask
  exact ⟨own, hrun, takenFrom_entry (hmidway.gaugesOf
    ((instrumentOf i).venue.tellBook rfc3339) rfl (gaugesOf_startingWorld (instrumentOf i) _))⟩

omit hkey in
theorem gauges_run_publishing :
    ∃ own, ((run .ascii {} publishingRun).report firstTask).metrics.TakenFrom
      (@Client.Held ((instrumentOf firstTask).venue.client fun _ => none) (firstConfig false)
        (startingWorld (instrumentOf firstTask)) own) := by
  obtain ⟨own, -, htaken⟩ :=
    @gauges_run (fun _ => none) .ascii {} _ firstTask (by decide +kernel) publishingRun _ _ _ _ rfl
  exact ⟨own, htaken⟩

end Process

end Cryptomeria
