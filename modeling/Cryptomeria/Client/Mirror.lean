import Cryptomeria.Client.Venue
import Cryptomeria.Lib.Trace

/-!
# What the status entry says about the book

The sizes in the status entry are not read from the book when `/status` is asked: they are copied
when a book message has been handled, and set to zero when a new entry is written. Still they are
never out of date. While the client reads, they are the totals of the book that it holds; while it
has no book, they are zero and no price is shown (`Client.mirrors_run`).
-/

set_option autoImplicit false

namespace Cryptomeria

/-- The sizes of the entry are the totals of the book. -/
structure ClientStatus.Shows (entry : ClientStatus) (b : OrderBook) : Prop where
  bidSize : entry.bidSize = b.totalBidSize
  askSize : entry.askSize = b.totalAskSize

/-- A new entry: no book, and no price yet. -/
structure ClientStatus.Blank (entry : ClientStatus) : Prop where
  sizes : entry.Shows OrderBook.new
  lastPrice : entry.lastPrice = none

theorem Levels.toList_empty {s : Side} : (∅ : Levels s).toList = [] :=
  Std.ExtTreeMap.toList_eq_nil_iff.mpr rfl

theorem OrderBook.totalBidSize_new : OrderBook.new.totalBidSize = F64.zero := by
  rw [totalBidSize, new, Levels.toList_empty]
  rfl

theorem OrderBook.totalAskSize_new : OrderBook.new.totalAskSize = F64.zero := by
  rw [totalAskSize, new, Levels.toList_empty]
  rfl

namespace World

variable {cfg : Config} {b : OrderBook} {w : World}

/-- The entry of the client, if there is one. -/
def entry (cfg : Config) (w : World) : Option ClientStatus := w.status[statusKey cfg]?

/-- The entry of the client shows this book. -/
def ShowsBook (cfg : Config) (b : OrderBook) (w : World) : Prop :=
  ∀ entry ∈ w.entry cfg, entry.Shows b

def ShowsBlank (cfg : Config) (w : World) : Prop := ∀ entry ∈ w.entry cfg, entry.Blank

theorem ShowsBlank.showsBook (h : ShowsBlank cfg w) : ShowsBook cfg OrderBook.new w :=
  fun entry hentry => (h entry hentry).sizes

theorem entry_modifyStatus (hstatus : cfg.statusHandle = true) (f : ClientStatus → ClientStatus)
    (w : World) : (modifyStatus cfg f w).entry cfg = (w.entry cfg).map f := by
  unfold modifyStatus entry
  rw [if_pos hstatus]
  cases h : w.status[statusKey cfg]? with
  | none => simp [h]
  | some st => simp

/-- An update of the entry that leaves the sizes as they are. -/
theorem ShowsBook.modifyStatus (h : ShowsBook cfg b w) (hstatus : cfg.statusHandle = true)
    {f : ClientStatus → ClientStatus} (hf : ∀ entry, entry.Shows b → (f entry).Shows b) :
    ShowsBook cfg b (w.modifyStatus cfg f) := by
  intro entry hentry
  rw [entry_modifyStatus hstatus] at hentry
  obtain ⟨before, hbefore, rfl⟩ := Option.mem_map.mp hentry
  exact hf before (h before hbefore)

theorem ShowsBook.updateLastPrice (h : ShowsBook cfg b w) (hstatus : cfg.statusHandle = true)
    (now : ℕ) (price : F64) : ShowsBook cfg b (w.updateLastPrice cfg now price) :=
  h.modifyStatus hstatus fun _ hentry => ⟨hentry.bidSize, hentry.askSize⟩

/-- A publication shows its book, whatever was shown before. -/
theorem showsBook_publish (hstatus : cfg.statusHandle = true) (now : ℕ) (b : OrderBook)
    (w : World) : ShowsBook cfg b (w.publish cfg now b) := by
  intro entry hentry
  have hlob : entry ∈ (w.updateLobMetrics cfg now b).entry cfg := hentry
  rw [updateLobMetrics, entry_modifyStatus hstatus] at hlob
  obtain ⟨before, -, rfl⟩ := Option.mem_map.mp hlob
  exact ⟨rfl, rfl⟩

theorem ShowsBook.congr {w' : World} (h : ShowsBook cfg b w) (hsame : w'.status = w.status) :
    ShowsBook cfg b w' := by
  intro entry hentry
  apply h entry
  rwa [World.entry, hsame] at hentry

theorem status_persistLob (stamp : Stamp) (tsMs : ℕ) (action : String)
    (levels : List (Side × Okx.LobLevel)) (bestBid bestAsk : Option F64) (w : World) :
    (w.persistLob cfg stamp tsMs action levels bestBid bestAsk).status = w.status := by
  unfold persistLob
  split <;> rfl

theorem status_persistTrade (stamp : Stamp) (trade : TradeData) (w : World) :
    (w.persistTrade stamp trade).status = w.status := by
  unfold persistTrade
  split <;> rfl

theorem showsBlank_updateStatusActive (hstatus : cfg.statusHandle = true) (now : ℕ)
    (active : Bool) (detail : String) (w : World) :
    (w.updateStatusActive cfg now active detail).ShowsBlank cfg := by
  intro entry hentry
  rw [updateStatusActive, if_pos hstatus] at hentry
  simp only [World.entry, Std.ExtTreeMap.getElem?_insert_self, Option.mem_some_iff] at hentry
  rw [← hentry]
  exact ⟨⟨OrderBook.totalBidSize_new.symm, OrderBook.totalAskSize_new.symm⟩, rfl⟩

end World

/-! ## The handlers -/

/-- Whatever a handler does, the entry shows the book that it has arrived at. -/
structure ClientSpec.Mirrors (c : ClientSpec) : Prop where
  newSession : ∀ cfg, c.book (c.newSession cfg) = OrderBook.new
  message : ∀ cfg filter stamp msg before w, cfg.statusHandle = true →
    World.ShowsBook cfg (c.book before) w →
    let after := c.onMessage cfg filter msg before
    World.ShowsBook cfg (c.book after) (c.reportMessage cfg stamp msg before after w)
  answer : ∀ cfg filter stamp a before w, cfg.statusHandle = true →
    World.ShowsBook cfg (c.book before) w →
    let after := c.onAnswer cfg filter a before
    World.ShowsBook cfg (c.book after) (c.reportAnswer cfg stamp a before after w)

namespace Okx

open World

variable {cfg : Config} {stamp : Stamp} {b : OrderBook} {w : World}

theorem showsBook_persistMessage (hstatus : cfg.statusHandle = true) (msg : OkxWsMessage)
    (h : ShowsBook cfg b w) : ShowsBook cfg b (persistMessage cfg stamp msg w) := by
  unfold persistMessage
  cases msg.messageType with
  | l2Snapshot | l2Update => exact h.congr (status_persistLob _ _ _ _ _ _ _)
  | trade =>
    cases firstTrade msg with
    | none => exact h
    | some trade =>
      have htrade := fun trade => h.congr (status_persistTrade stamp trade w)
      dsimp only
      split
      · exact (htrade _).updateLastPrice hstatus _ _
      · exact htrade _
  | l2 | event | unknown => exact h

theorem mirrors : client.Mirrors where
  newSession _ := rfl
  message cfg filter stamp msg b w hstatus h := by
    show ShowsBook cfg (onMessage filter msg b)
      (reportMessage cfg stamp msg (onMessage filter msg b) w)
    have hreport : ∀ b' w', ShowsBook cfg b' w' →
        ShowsBook cfg b' (if cfg.sender then persistMessage cfg stamp msg w' else w') := by
      intro b' w' h'
      split
      · exact showsBook_persistMessage hstatus msg h'
      · exact h'
    unfold reportMessage
    apply hreport
    unfold onMessage
    cases msg.messageType with
    | l2Snapshot | l2Update | l2 => exact showsBook_publish hstatus _ _ _
    | trade | event | unknown =>
      -- the book stays, and so do the sizes
      cases firstTrade msg with
      | none => exact h
      | some trade =>
        have hcount : ShowsBook cfg b (w.incTradesTotal cfg) := h.congr rfl
        dsimp only
        cases parseF64 trade.px with
        | none => exact hcount
        | some px => exact hcount.updateLastPrice hstatus _ _
  answer _ _ _ a := a.elim

end Okx

namespace Kraken

open World

variable {rfc3339 : String → Option ℤ} {cfg : Config} {stamp : Stamp} {b : OrderBook} {w : World}

theorem status_persistMessage (msg : KrakenWsMessage) (w : World) :
    (persistMessage rfc3339 cfg stamp msg w).status = w.status := by
  unfold persistMessage
  cases msg.messageType with
  | l2Snapshot | l2Update => exact status_persistLob _ _ _ _ _ _ _
  | trade =>
    cases firstTrade msg with
    | none => rfl
    | some trade => exact status_persistTrade _ _ _
  | l2 | event | status | heartbeat | unknown => rfl

theorem mirrors (rfc3339 : String → Option ℤ) : (client rfc3339).Mirrors where
  newSession _ := rfl
  message cfg filter stamp msg b w hstatus h := by
    show ShowsBook cfg (onMessage filter msg b)
      (reportMessage rfc3339 cfg stamp msg (onMessage filter msg b) w)
    have hreport : ∀ b' w', ShowsBook cfg b' w' →
        ShowsBook cfg b' (if cfg.sender then persistMessage rfc3339 cfg stamp msg w' else w') := by
      intro b' w' h'
      split
      · exact h'.congr (status_persistMessage msg w')
      · exact h'
    unfold reportMessage
    apply hreport
    unfold onMessage
    cases msg.messageType with
    | l2Snapshot | l2Update | l2 => exact showsBook_publish hstatus _ _ _
    | trade =>
      have hcount : ShowsBook cfg b (w.incTradesTotal cfg) := h.congr rfl
      cases firstTrade msg with
      | none => exact hcount
      | some trade => exact hcount.updateLastPrice hstatus _ _
    | event | status | heartbeat | unknown => exact h
  answer _ _ _ a := a.elim

end Kraken

namespace Bitstamp

open World

variable {cfg : Config} {stamp : Stamp} {b : Cryptomeria.OrderBook} {w : World}

theorem showsBook_persistIfSender (hstatus : cfg.statusHandle = true) (msg : BitstampWsMessage)
    (h : ShowsBook cfg b w) : ShowsBook cfg b (persistIfSender cfg stamp msg w) := by
  unfold persistIfSender persistMessage
  split
  · cases msg.messageType with
    | l2Snapshot | l2Update => exact h.congr (status_persistLob _ _ _ _ _ _ _)
    | trade =>
      cases tradeOf msg with
      | none => exact h
      | some trade =>
        have htrade := fun trade => h.congr (status_persistTrade stamp trade w)
        dsimp only
        split
        · exact (htrade _).updateLastPrice hstatus _ _
        · exact htrade _
    | event | unknown => exact h
  · exact h

/-- Until the snapshot is applied the book stays as it is. -/
theorem Session.orderBook_onMessage {self : Session} (h : self.snapshotApplied = false)
    (filter : Option LobFilter) (msg : BitstampWsMessage) :
    (self.onMessage filter msg).orderBook = self.orderBook := by
  simp only [onMessage, h, Bool.not_false, if_true]
  cases msg.messageType <;> dsimp only <;> repeat' split
  all_goals rfl

theorem mirrors : client.Mirrors where
  newSession _ := rfl
  message cfg filter stamp msg before w hstatus h := by
    show ShowsBook cfg (before.onMessage filter msg).orderBook.toOrderBook
      (reportMessage cfg stamp msg before (before.onMessage filter msg) w)
    have hcount : ShowsBook cfg before.orderBook.toOrderBook (w.incTradesTotal cfg) := h.congr rfl
    unfold reportMessage
    cases happlied : before.snapshotApplied with
    | false =>
      rw [Session.orderBook_onMessage happlied]
      simp only [Bool.not_false, if_true]
      cases msg.messageType with
      | trade =>
        have hpersist := @showsBook_persistIfSender _ stamp _ _ hstatus msg hcount
        dsimp only
        cases (tradeOf msg).bind fun trade => parseF64 trade.price with
        | none => exact hpersist
        | some px => exact hpersist.updateLastPrice hstatus _ _
      | l2Update | event | unknown | l2Snapshot => exact h
    | true =>
      simp only [Bool.not_true, Bool.false_eq_true, if_false]
      apply showsBook_persistIfSender hstatus
      cases hm : msg.messageType with
      | l2Snapshot | l2Update => exact showsBook_publish hstatus _ _ _
      | trade | event | unknown =>
        have hsame : (before.onMessage filter msg).orderBook = before.orderBook := by
          simp only [Session.onMessage, happlied, hm, Bool.not_true, Bool.false_eq_true, if_false]
        rw [hsame]
        first
          | exact h
          | cases tradeOf msg with
            | none => exact hcount
            | some trade => exact hcount.updateLastPrice hstatus _ _
  answer cfg filter stamp a before w hstatus h := by
    cases a with
    | ok snapshot => exact showsBook_publish hstatus _ _ _
    | badJson | failed => exact h

end Bitstamp

theorem Venue.mirrors (rfc3339 : String → Option ℤ) (x : Venue) :
    (x.client rfc3339).Mirrors := by
  cases x with
  | okx => exact Okx.mirrors
  | kraken => exact Kraken.mirrors rfc3339
  | bitstamp => exact Bitstamp.mirrors

/-! ## The run -/

section Run

open World

variable {c : ClientSpec} {cfg : Config}

theorem Conn.showsBook_step (hc : c.Mirrors) (hstatus : cfg.statusHandle = true)
    (filter : Option LobFilter) {st : Conn c × World} (h : ShowsBook cfg (c.book st.1.session) st.2)
    (e : ConnEvent c) :
    ShowsBook cfg (c.book (Conn.step cfg filter st e).1.session) (Conn.step cfg filter st e).2 := by
  have heffect : Conn.Effect cfg filter st.1 st.2 e (Conn.step cfg filter st e) :=
    Conn.step_effect st e
  generalize Conn.step cfg filter st e = st' at heffect ⊢
  cases heffect with
  | quiet _ _ hsession _ =>
    rw [hsession]
    exact h
  | message _ hsession _ =>
    rw [hsession]
    exact hc.message _ _ _ _ _ _ hstatus (h.congr rfl)
  | answer _ hsession _ =>
    rw [hsession]
    exact hc.answer _ _ _ _ _ _ hstatus h

/-- The client connects, subscribes or waits: there is nothing in its book yet. -/
def Phase.bookless : Phase → Bool
  | .connecting | .subscribing _ | .sleeping _ _ => true
  | .reading | .returned | .panicked => false

namespace Client

/-- What the status entry shows, phase by phase. -/
def Mirrors (cfg : Config) (st : Client c) : Prop :=
  match st.phase with
  | .connecting | .sleeping _ _ => st.world.ShowsBlank cfg
  | .subscribing _ => st.world.ShowsBlank cfg ∧ c.book st.conn.session = OrderBook.new
  | .reading => st.world.ShowsBook cfg (c.book st.conn.session)
  | .returned | .panicked =>
    st.world.ShowsBlank cfg ∨ st.world.ShowsBook cfg (c.book st.conn.session)

variable {st : Client c}

theorem Mirrors.showsBook (h : st.Mirrors cfg) (hphase : st.phase = .reading) :
    st.world.ShowsBook cfg (c.book st.conn.session) := by
  rwa [Mirrors, hphase] at h

theorem Mirrors.showsBlank (h : st.Mirrors cfg) (hphase : st.phase.bookless = true) :
    st.world.ShowsBlank cfg := by
  rw [Mirrors] at h
  cases hp : st.phase with
  | connecting | sleeping =>
    rw [hp] at h
    exact h
  | subscribing second =>
    rw [hp] at h
    exact h.1
  | reading | returned | panicked =>
    rw [hp] at hphase
    cases hphase

theorem mirrors_read (hc : c.Mirrors) (hstatus : cfg.statusHandle = true)
    (hphase : st.phase = .reading) (h : st.world.ShowsBook cfg (c.book st.conn.session))
    (e : ConnEvent c) : (st.read cfg e).Mirrors cfg := by
  have hconn := @Conn.showsBook_step _ _ hc hstatus cfg.lobFilter (st.conn, st.world) h e
  have hreading : ∀ st' : Client c, st'.phase = .reading →
      st'.world.ShowsBook cfg (c.book st'.conn.session) → st'.Mirrors cfg := by
    intro st' hphase' h'
    rw [Mirrors, hphase']
    exact h'
  unfold read
  cases e with
  | arrive item => exact hreading _ hphase hconn
  | answer stamp a =>
    dsimp only
    split
    · exact Or.inr hconn
    · exact hreading _ hphase hconn
  | poll stamp =>
    dsimp only
    split
    · exact Or.inr hconn
    · split
      · exact Or.inr hconn
      · exact showsBlank_updateStatusActive hstatus _ _ _ _
    · split
      · exact Or.inr hconn
      · exact hreading _ hphase hconn

theorem mirrors_step (hc : c.Mirrors) (hstatus : cfg.statusHandle = true) (h : st.Mirrors cfg)
    (e : Event c) : (st.step cfg e).Mirrors cfg := by
  unfold step
  split
  · exact ⟨showsBlank_updateStatusActive hstatus _ _ _ _, hc.newSession cfg⟩
  · rename_i hphase
    rw [Mirrors, hphase] at h
    dsimp only
    cases c.connectErrorDetail (st.attempt + 1) with
    | none => exact h
    | some detail => exact showsBlank_updateStatusActive hstatus _ _ _ _
  · rename_i hphase
    rw [Mirrors, hphase] at h
    exact ⟨showsBlank_updateStatusActive hstatus _ _ _ _, h.2⟩
  · rename_i hphase
    rw [Mirrors, hphase] at h
    show st.world.ShowsBook cfg (c.book st.conn.session)
    rw [h.2]
    exact h.1.showsBook
  · rename_i hphase
    rw [Mirrors, hphase] at h
    exact h.1
  · rename_i second item hphase
    rw [Mirrors, hphase] at h
    have hread : (st.read cfg (.arrive item)).phase = .subscribing second := hphase
    rw [Mirrors, hread]
    exact h
  · rename_i hphase
    rw [Mirrors, hphase] at h
    exact mirrors_read hc hstatus hphase h _
  · rename_i hphase
    rw [Mirrors, hphase] at h
    split
    · rw [Mirrors, hphase]
      exact h
    · exact Or.inr h
  · rename_i site delay signal hphase
    rw [Mirrors, hphase] at h
    cases site <;> cases signal
    all_goals first
      | exact h
      | exact Or.inl h
  · exact h

/-- **The status entry and the book.** In every run whose entry starts blank, the entry shows the
totals of the book that the client holds whenever the client reads, and nothing otherwise. -/
theorem mirrors_run (hc : c.Mirrors) (hstatus : cfg.statusHandle = true) {w : World}
    (hw : w.ShowsBlank cfg) (es : List (Event c)) : (run c cfg w es).Mirrors cfg :=
  (Trace.always_of_inductive (I := Mirrors cfg) (H := fun _ => True) (s := start c cfg w) hw
    (fun _ _ => trivial) fun _ e h _ => mirrors_step hc hstatus h e).last

end Client

end Run

end Cryptomeria
