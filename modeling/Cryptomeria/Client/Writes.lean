import Cryptomeria.Client.Venue

/-!
# What a step writes to the gauges of the book

A handler publishes at most once, and then the book it has arrived at. Whatever else the handlers
and the loop around them write leaves the gauges of the book alone (`Client.writes`).
-/

set_option autoImplicit false

namespace Cryptomeria

namespace World

variable {cfg : Config} {w w' w'' : World} {b : OrderBook}

/-- The gauges are as before, but for the count of trades, and nothing was published. -/
structure Quiet (w w' : World) : Prop where
  published : w'.published = w.published
  metrics : ∃ trades, w'.metrics = { w.metrics with tradesTotal := trades }

theorem Quiet.refl (w : World) : Quiet w w := ⟨rfl, _, rfl⟩

theorem Quiet.trans (h : Quiet w w') (h' : Quiet w' w'') : Quiet w w'' := by
  obtain ⟨trades, hm⟩ := h.metrics
  obtain ⟨trades', hm'⟩ := h'.metrics
  exact ⟨h'.published.trans h.published, trades', by rw [hm', hm]⟩

theorem SameGauges.quiet (h : SameGauges w w') : Quiet w w' := ⟨h.published, _, h.metrics⟩

theorem quiet_updateStatusActive (now : ℕ) (active : Bool) (detail : String) (w : World) :
    Quiet w (w.updateStatusActive cfg now active detail) :=
  SameGauges.quiet ⟨updateStatusActive_metrics, updateStatusActive_published⟩

theorem quiet_updateLastPrice (now : ℕ) (price : F64) (w : World) :
    Quiet w (w.updateLastPrice cfg now price) :=
  (sameGauges_updateLastPrice now price w).quiet

theorem quiet_incTradesTotal (w : World) : Quiet w (w.incTradesTotal cfg) :=
  ⟨incTradesTotal_published, _, rfl⟩

/-- Nothing of the book is written, or this book is published. -/
def Writes (cfg : Config) (b : OrderBook) (w w' : World) : Prop :=
  Quiet w w' ∨ ∃ now w₁, Quiet w w₁ ∧ Quiet (w₁.publish cfg now b) w'

theorem writes_publish (cfg : Config) (now : ℕ) (b : OrderBook) (w : World) :
    Writes cfg b w (w.publish cfg now b) := Or.inr ⟨now, w, Quiet.refl _, Quiet.refl _⟩

theorem Writes.quiet (h : Writes cfg b w w') (h' : Quiet w' w'') : Writes cfg b w w'' := by
  rcases h with h | ⟨now, w₁, h₁, h⟩
  · exact Or.inl (h.trans h')
  · exact Or.inr ⟨now, w₁, h₁, h.trans h'⟩

theorem Quiet.writes (h : Quiet w w') (h' : Writes cfg b w' w'') : Writes cfg b w w'' := by
  rcases h' with h' | ⟨now, w₁, h₁, h'⟩
  · exact Or.inl (h.trans h')
  · exact Or.inr ⟨now, w₁, h.trans h₁, h'⟩

theorem Writes.ite {p : Prop} [Decidable p] {f : World → World} (h : Writes cfg b w w')
    (hf : Quiet w' (f w')) : Writes cfg b w (if p then f w' else w') := by
  split
  · exact h.quiet hf
  · exact h

end World

/-! ## The handlers -/

/-- Whatever a handler writes, it publishes at most once, and then the book it has arrived at. -/
structure ClientSpec.WritesBook (c : ClientSpec) : Prop where
  message : ∀ cfg stamp msg before after w,
    World.Writes cfg (c.book after) w (c.reportMessage cfg stamp msg before after w)
  answer : ∀ cfg stamp a before after w,
    World.Writes cfg (c.book after) w (c.reportAnswer cfg stamp a before after w)

section Handlers

open World

variable {cfg : Config} {stamp : Stamp}

theorem Okx.writes_reportMessage (msg : OkxWsMessage) (b : OrderBook) (w : World) :
    Writes cfg b w (reportMessage cfg stamp msg b w) := by
  refine Writes.ite ?_ (sameGauges_persistMessage cfg stamp msg _).quiet
  cases msg.messageType with
  | l2Snapshot | l2Update | l2 => exact writes_publish _ _ _ _
  | trade | event | unknown =>
    left
    cases firstTrade msg with
    | none => exact Quiet.refl _
    | some trade =>
      dsimp only
      cases parseF64 trade.px with
      | none => exact quiet_incTradesTotal w
      | some px => exact (quiet_incTradesTotal w).trans (quiet_updateLastPrice _ _ _)

theorem Okx.writesBook : client.WritesBook where
  message _ _ msg _ after w := writes_reportMessage msg after w
  answer _ _ a := a.elim

variable {rfc3339 : String → Option ℤ}

theorem Kraken.writes_reportMessage (msg : KrakenWsMessage) (b : OrderBook) (w : World) :
    Writes cfg b w (reportMessage rfc3339 cfg stamp msg b w) := by
  refine Writes.ite ?_ (sameGauges_persistMessage rfc3339 cfg stamp msg _).quiet
  cases msg.messageType with
  | l2Snapshot | l2Update | l2 => exact writes_publish _ _ _ _
  | trade =>
    left
    cases firstTrade msg with
    | none => exact quiet_incTradesTotal w
    | some trade => exact (quiet_incTradesTotal w).trans (quiet_updateLastPrice _ _ _)
  | event | status | heartbeat | unknown => exact Or.inl (Quiet.refl _)

theorem Kraken.writesBook : (client rfc3339).WritesBook where
  message _ _ msg _ after w := writes_reportMessage msg after w
  answer _ _ a := a.elim

theorem Bitstamp.writes_reportMessage (msg : BitstampWsMessage) (before after : Session)
    (w : World) :
    Writes cfg after.orderBook.toOrderBook w (reportMessage cfg stamp msg before after w) := by
  unfold reportMessage
  cases before.snapshotApplied with
  | false =>
    -- before the snapshot nothing is published
    left
    cases msg.messageType with
    | trade =>
      have hquiet : Quiet w (persistIfSender cfg stamp msg (w.incTradesTotal cfg)) :=
        (quiet_incTradesTotal w).trans (sameGauges_persistIfSender cfg stamp msg _).quiet
      simp only [Bool.not_false, if_true]
      cases (tradeOf msg).bind fun trade => parseF64 trade.price with
      | none => exact hquiet
      | some px => exact hquiet.trans (quiet_updateLastPrice _ _ _)
    | l2Update | event | unknown | l2Snapshot => exact Quiet.refl _
  | true =>
    refine Writes.quiet ?_ (sameGauges_persistIfSender cfg stamp msg _).quiet
    cases msg.messageType with
    | l2Snapshot | l2Update => exact writes_publish _ _ _ _
    | trade =>
      left
      cases tradeOf msg with
      | none => exact quiet_incTradesTotal w
      | some trade => exact (quiet_incTradesTotal w).trans (quiet_updateLastPrice _ _ _)
    | event | unknown => exact Or.inl (Quiet.refl _)

theorem Bitstamp.writesBook : client.WritesBook where
  message _ _ msg before after w := writes_reportMessage msg before after w
  answer _ _ a _ after w := by
    cases a with
    | ok snapshot => exact writes_publish _ _ _ _
    | badJson | failed => exact Or.inl (Quiet.refl _)

end Handlers

theorem Venue.writesBook (x : Venue) (rfc3339 : String → Option ℤ) :
    (x.client rfc3339).WritesBook := by
  cases x with
  | okx => exact Okx.writesBook
  | kraken => exact Kraken.writesBook
  | bitstamp => exact Bitstamp.writesBook

/-! ## Steps -/

section Steps

open World

variable {c : ClientSpec} {cfg : Config} {filter : Option LobFilter}

theorem Conn.writes (hc : c.WritesBook) (st : Conn c × World) (e : ConnEvent c) :
    Writes cfg (c.book (Conn.step cfg filter st e).1.session) st.2
      (Conn.step cfg filter st e).2 := by
  have heffect : Conn.Effect cfg filter st.1 st.2 e (Conn.step cfg filter st e) :=
    Conn.step_effect st e
  generalize Conn.step cfg filter st e = st' at heffect ⊢
  cases heffect with
  | quiet => exact Or.inl (Quiet.refl _)
  | message =>
    have hcount : Quiet st.2 { st.2 with messagesReceived := st.2.messagesReceived + 1 } :=
      SameGauges.quiet ⟨rfl, rfl⟩
    exact hcount.writes (hc.message _ _ _ _ _ _)
  | answer => exact hc.answer _ _ _ _ _ _

namespace Client

/-- A step of the loop is quiet, or it is a step of the connection and then quiet. -/
theorem world_step (cfg : Config) (st : Client c) (e : Event c) :
    World.Quiet st.world (st.step cfg e).world ∨
      ∃ e', (st.step cfg e).conn.session
          = (Conn.step cfg cfg.lobFilter (st.conn, st.world) e').1.session ∧
        World.Quiet (Conn.step cfg cfg.lobFilter (st.conn, st.world) e').2
          (st.step cfg e).world := by
  have hread : ∀ e, (st.read cfg e).conn.session
        = (Conn.step cfg cfg.lobFilter (st.conn, st.world) e).1.session ∧
      World.Quiet (Conn.step cfg cfg.lobFilter (st.conn, st.world) e).2 (st.read cfg e).world := by
    intro e
    cases e with
    | arrive item => exact ⟨rfl, World.Quiet.refl _⟩
    | answer stamp a =>
      simp only [read]
      split <;> exact ⟨rfl, World.Quiet.refl _⟩
    | poll stamp =>
      simp only [read]
      split
      · exact ⟨rfl, World.Quiet.refl _⟩
      · split
        · exact ⟨rfl, World.Quiet.refl _⟩
        · exact ⟨rfl, quiet_updateStatusActive _ _ _ _⟩
      · split <;> exact ⟨rfl, World.Quiet.refl _⟩
  unfold step
  split
  · exact Or.inl (quiet_updateStatusActive _ _ _ _)
  · left
    dsimp only [sleep]
    split
    · exact quiet_updateStatusActive _ _ _ _
    · exact World.Quiet.refl _
  · exact Or.inl (quiet_updateStatusActive _ _ _ _)
  · exact Or.inl (World.Quiet.refl _)
  · exact Or.inl (World.Quiet.refl _)
  · exact Or.inr ⟨_, hread _⟩
  · exact Or.inr ⟨_, hread _⟩
  · split <;> exact Or.inl (World.Quiet.refl _)
  · rename_i site delay signal _
    left
    cases site <;> cases signal <;> exact World.Quiet.refl _
  · exact Or.inl (World.Quiet.refl _)

/-- **What a step writes**: at most a publication of the book that it leads to. -/
theorem writes (cfg : Config) (hc : c.WritesBook) (st : Client c) (e : Event c) :
    Writes cfg (c.book (st.step cfg e).conn.session) st.world (st.step cfg e).world := by
  rcases world_step cfg st e with h | ⟨e', hsession, h⟩
  · exact Or.inl h
  · rw [hsession]
    exact (Conn.writes hc _ e').quiet h

end Client

end Steps

end Cryptomeria
