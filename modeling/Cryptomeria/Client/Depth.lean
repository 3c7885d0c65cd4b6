import Cryptomeria.Client.Writes

/-!
# The published depth

After a book message the client sets one gauge for each level. Nothing ever takes a gauge away, so
what `/metrics` reports is everything that was ever published (`Accrued`), and it is the present
book only as long as no price label leaves the book (`Venue.depth_mirrors_iff`).
-/

set_option autoImplicit false

namespace Cryptomeria

/-! ## What is reported -/

/-- The price that `/metrics` shows for a level: its label, read back. -/
def shownPrice (p : F64) : F64 := (parseF64 (formatFixed 2 p)).getD F64.zero

/-- A level of the book has this price label. -/
def OrderBook.Shows (b : OrderBook) (s : Side) (x : F64) : Prop := ∃ p ∈ b.side s, shownPrice p = x

instance (b : OrderBook) (s : Side) (x : F64) : Decidable (b.Shows s x) :=
  decidable_of_iff (∃ p ∈ (b.side s).keys, shownPrice p = x) <| by
    simp [OrderBook.Shows, Std.ExtTreeMap.mem_keys]

theorem OrderBook.Shows.mono {b b' : OrderBook} {s : Side} {x : F64}
    (h : ∀ p ∈ (b.side s).keys, p ∈ b'.side s) (hx : b.Shows s x) : b'.Shows s x := by
  obtain ⟨p, hp, hlabel⟩ := hx
  exact ⟨p, h p (Std.ExtTreeMap.mem_keys.mpr hp), hlabel⟩

/-- `/metrics` skips a client without an exchange or an instrument. -/
def Config.Named (cfg : Config) : Prop := cfg.exchange ≠ "" ∧ cfg.cliInstrument ≠ ""

namespace World

variable {cfg : Config} {w w' w'' : World} {b : OrderBook}

/-- A depth entry of the client's exchange and instrument names the price. -/
def Reports (cfg : Config) (w : World) (s : Side) (x : F64) : Prop :=
  ∃ e ∈ w.metrics.depthEntries cfg.exchange cfg.cliInstrument, e.side = s ∧ e.price = x

/-- The depth entries name exactly the price labels of the book. -/
def Mirrors (cfg : Config) (w : World) (b : OrderBook) : Prop :=
  ∀ s x, w.Reports cfg s x ↔ b.Shows s x

theorem reports_iff (hn : cfg.Named) {s : Side} {x : F64} :
    w.Reports cfg s x ↔ ∃ label, [cfg.exchange, cfg.cliInstrument, label] ∈ w.metrics.depth s ∧
      (parseF64 label).getD F64.zero = x := by
  simp only [Reports, LobMetrics.mem_depthEntries hn.1 hn.2,
    Std.ExtTreeMap.mem_iff_isSome_getElem?, Option.isSome_iff_exists]
  constructor
  · rintro ⟨e, ⟨label, v, hv, hprice, -⟩, rfl, rfl⟩
    exact ⟨label, ⟨v, hv⟩, hprice.symm⟩
  · rintro ⟨label, ⟨v, hv⟩, rfl⟩
    exact ⟨⟨(parseF64 label).getD F64.zero, v, s⟩, ⟨label, v, hv, rfl, rfl⟩, rfl, rfl⟩

theorem not_reports (hn : ¬ cfg.Named) {s : Side} {x : F64} : ¬ w.Reports cfg s x := by
  have hempty : cfg.exchange = "" ∨ cfg.cliInstrument = "" := by
    by_contra h
    exact hn (not_or.mp h)
  rintro ⟨e, he, -⟩
  simp [LobMetrics.depthEntries, hempty] at he

/-! ## What a publication adds -/

theorem mem_setDepthLevels (g : GaugeVec) (levels : List (F64 × F64)) (labels : List String) :
    labels ∈ setDepthLevels cfg g levels ↔
      labels ∈ g ∨ ∃ l ∈ levels, depthLabels cfg l.1 = labels := by
  unfold setDepthLevels
  induction levels generalizing g with
  | nil => simp
  | cons l ls ih =>
    rw [List.foldl_cons, ih, Std.ExtTreeMap.mem_insert, Std.LawfulEqCmp.compare_eq_iff_eq]
    simp only [List.mem_cons, exists_eq_or_imp]
    grind

/-- The gauges and the history of publications are as before. -/
structure Still (w w' : World) : Prop where
  published : w'.published = w.published
  depth : ∀ s, w'.metrics.depth s = w.metrics.depth s

/-- The book was published. -/
structure Published (cfg : Config) (b : OrderBook) (w w' : World) : Prop where
  published : w'.published = w.published ++ [b]
  depth : ∀ s, w'.metrics.depth s = setDepthLevels cfg (w.metrics.depth s) (b.side s).toList

theorem Still.refl (w : World) : Still w w := ⟨rfl, fun _ => rfl⟩

theorem Still.trans (h : Still w w') (h' : Still w' w'') : Still w w'' :=
  ⟨h'.published.trans h.published, fun s => (h'.depth s).trans (h.depth s)⟩

theorem Quiet.still (h : Quiet w w') : Still w w' := by
  obtain ⟨trades, hm⟩ := h.metrics
  exact ⟨h.published, fun s => by rw [hm]; cases s <;> rfl⟩

theorem Published.still (h : Published cfg b w w') (h' : Still w' w'') : Published cfg b w w'' :=
  ⟨h'.published.trans h.published, fun s => (h'.depth s).trans (h.depth s)⟩

theorem Still.published_after (h : Still w w') (h' : Published cfg b w' w'') :
    Published cfg b w w'' :=
  ⟨by rw [h'.published, h.published], fun s => by rw [h'.depth, h.depth]⟩

theorem Published.reports_iff (hn : cfg.Named) (h : Published cfg b w w') {s : Side} {x : F64} :
    w'.Reports cfg s x ↔ w.Reports cfg s x ∨ b.Shows s x := by
  simp only [World.reports_iff hn, h.depth, mem_setDepthLevels, depthLabels, List.cons.injEq,
    true_and, and_true]
  constructor
  · rintro ⟨label, hold | ⟨⟨p, v⟩, hmem, rfl⟩, hx⟩
    · exact Or.inl ⟨label, hold, hx⟩
    · have hp : (b.side s)[p]? = some v := Std.ExtTreeMap.mem_toList_iff_getElem?_eq_some.mp hmem
      exact Or.inr ⟨p, Std.ExtTreeMap.mem_iff_isSome_getElem?.mpr (by simp [hp]), hx⟩
  · rintro (⟨label, hold, hx⟩ | ⟨p, hp, hx⟩)
    · exact ⟨label, Or.inl hold, hx⟩
    · exact ⟨_, Or.inr ⟨(p, (b.side s)[p]), by simp, rfl⟩, hx⟩

theorem published_publish (cfg : Config) (now : ℕ) (b : OrderBook) (w : World) :
    Published cfg b w (w.publish cfg now b) := by
  refine ⟨publish_published, fun s => ?_⟩
  cases s <;> simp [publish, updateDepthMetrics, updateLobMetrics, LobMetrics.depth,
    OrderBook.side]

/-- What a step does to the depth: nothing, or it publishes this book. -/
def DepthStep (cfg : Config) (b : OrderBook) (w w' : World) : Prop :=
  Still w w' ∨ Published cfg b w w'

theorem DepthStep.still (h : DepthStep cfg b w w') (h' : Still w' w'') : DepthStep cfg b w w'' :=
  h.imp (fun h => h.trans h') fun h => h.still h'

theorem Still.depthStep (h : Still w w') (h' : DepthStep cfg b w' w'') : DepthStep cfg b w w'' :=
  h'.imp (fun h' => h.trans h') fun h' => h.published_after h'

theorem Writes.depthStep (h : Writes cfg b w w') : DepthStep cfg b w w' := by
  rcases h with h | ⟨now, w₁, h₁, h⟩
  · exact Or.inl h.still
  · exact Or.inr (h₁.still.published_after ((published_publish cfg now b w₁).still h.still))

end World

/-! ## The three clients publish the book they hold -/

/-- Whatever a handler writes, it publishes at most once, and then the book it has arrived at. -/
structure ClientSpec.PublishesBook (c : ClientSpec) : Prop where
  message : ∀ cfg stamp msg before after w,
    World.DepthStep cfg (c.book after) w (c.reportMessage cfg stamp msg before after w)
  answer : ∀ cfg stamp a before after w,
    World.DepthStep cfg (c.book after) w (c.reportAnswer cfg stamp a before after w)

theorem ClientSpec.WritesBook.publishesBook {c : ClientSpec} (h : c.WritesBook) :
    c.PublishesBook where
  message cfg stamp msg before after w := (h.message cfg stamp msg before after w).depthStep
  answer cfg stamp a before after w := (h.answer cfg stamp a before after w).depthStep

theorem Venue.publishesBook (x : Venue) (rfc3339 : String → Option ℤ) :
    (x.client rfc3339).PublishesBook := (x.writesBook rfc3339).publishesBook

/-! ## Steps -/

section Steps

open World

variable {c : ClientSpec} {cfg : Config} {filter : Option LobFilter}

theorem Conn.depthStep (hc : c.PublishesBook) (st : Conn c × World) (e : ConnEvent c) :
    DepthStep cfg (c.book (Conn.step cfg filter st e).1.session) st.2
      (Conn.step cfg filter st e).2 := by
  have heffect : Conn.Effect cfg filter st.1 st.2 e (Conn.step cfg filter st e) :=
    Conn.step_effect st e
  generalize Conn.step cfg filter st e = st' at heffect ⊢
  cases heffect with
  | quiet => exact Or.inl (Still.refl _)
  | message =>
    have hcount : Quiet st.2 { st.2 with messagesReceived := st.2.messagesReceived + 1 } :=
      SameGauges.quiet ⟨rfl, rfl⟩
    exact hcount.still.depthStep (hc.message _ _ _ _ _ _)
  | answer => exact hc.answer _ _ _ _ _ _

namespace Client

/-- Whether the handler or the loop around it: a step publishes at most the book it leads to. -/
theorem depthStep (cfg : Config) (hc : c.PublishesBook) (st : Client c) (e : Event c) :
    DepthStep cfg (c.book (st.step cfg e).conn.session) st.world (st.step cfg e).world := by
  rcases world_step cfg st e with h | ⟨e', hsession, h⟩
  · exact Or.inl h.still
  · rw [hsession]
    exact (Conn.depthStep hc _ e').still h.still

end Client

end Steps

/-! ## Runs -/

/-- The client has published nothing, and nothing is reported under its labels. -/
structure World.Fresh (cfg : Config) (w : World) : Prop where
  published : w.published = []
  unreported : ∀ s x, ¬ w.Reports cfg s x

/-- Every price label of a book is one of each book after it. Where nothing is reported at all,
the books have no labels. -/
structure LabelsKept (cfg : Config) (books : List OrderBook) : Prop where
  kept : cfg.Named → books.Pairwise fun b b' => ∀ s x, b.Shows s x → b'.Shows s x
  unnamed : ¬ cfg.Named → ∀ b ∈ books, ∀ s x, ¬ b.Shows s x

theorem LabelsKept.nil (cfg : Config) : LabelsKept cfg [] :=
  ⟨fun _ => List.Pairwise.nil, fun _ _ hb => absurd hb List.not_mem_nil⟩

/-- What is reported has accrued from all the books published. -/
def World.Accrued (cfg : Config) (w : World) : Prop :=
  cfg.Named → ∀ s x, w.Reports cfg s x ↔ ∃ b ∈ w.published, b.Shows s x

namespace World

variable {cfg : Config} {w w' : World} {b : OrderBook}

theorem Fresh.accrued (h : w.Fresh cfg) : w.Accrued cfg := by
  intro _ s x
  rw [h.published]
  exact iff_of_false (h.unreported s x) (by simp)

theorem Accrued.still (h : w.Accrued cfg) (hw : Still w w') : w'.Accrued cfg := by
  intro hn s x
  rw [hw.published, ← h hn s x, reports_iff hn, reports_iff hn, hw.depth]

theorem Accrued.published (h : w.Accrued cfg) (hw : Published cfg b w w') : w'.Accrued cfg := by
  intro hn s x
  rw [hw.published, hw.reports_iff hn, h hn s x]
  simp [or_and_right, exists_or]

/-- The new book is mirrored if and only if it keeps the labels of the books before it. -/
theorem Accrued.mirrors_iff (h : w.Accrued cfg) (hw : Published cfg b w w')
    (hkept : LabelsKept cfg w.published) :
    w'.Mirrors cfg b ↔ LabelsKept cfg w'.published := by
  rw [hw.published]
  by_cases hn : cfg.Named
  · have hmirrors : w'.Mirrors cfg b ↔ ∀ b' ∈ w.published, ∀ s x, b'.Shows s x → b.Shows s x := by
      simp only [Mirrors, hw.reports_iff hn, h hn, or_iff_right_iff_imp]
      exact ⟨fun h b' hb' s x hx => h s x ⟨b', hb', hx⟩, fun h s x ⟨b', hb', hx⟩ => h b' hb' s x hx⟩
    rw [hmirrors]
    constructor
    · intro hb
      refine ⟨fun _ => ?_, fun h => absurd hn h⟩
      exact List.pairwise_append.mpr ⟨hkept.kept hn, List.pairwise_singleton _ _, by simpa using hb⟩
    · intro hall
      simpa using (List.pairwise_append.mp (hall.kept hn)).2.2
  · constructor
    · intro hm
      refine ⟨fun h => absurd h hn, fun _ => ?_⟩
      intro b' hb' s x hx
      rcases List.mem_append.mp hb' with hb' | hb'
      · exact hkept.unnamed hn b' hb' s x hx
      · obtain rfl := List.mem_singleton.mp hb'
        exact not_reports hn ((hm s x).mpr hx)
    · intro hall s x
      exact iff_of_false (not_reports hn) (hall.unnamed hn b (by simp) s x)

end World

namespace Client

variable {c : ClientSpec} {cfg : Config}

/-- If the step publishes a book, the reported depth is that of the book the client then holds. -/
def MirrorsAfter (cfg : Config) (st : Client c) (e : Event c) : Prop :=
  (st.step cfg e).world.published ≠ st.world.published →
    (st.step cfg e).world.Mirrors cfg (c.book (st.step cfg e).conn.session)

theorem mirrors_run_iff (hc : c.PublishesBook) {w : World} (hw : w.Fresh cfg)
    (es : List (Event c)) :
    Trace.EachStep (step cfg) (MirrorsAfter cfg) (start c cfg w) es ↔
      LabelsKept cfg (run c cfg w es).world.published := by
  have hstart : (start c cfg w).world.published = [] := hw.published
  refine Trace.eachStep_iff_history (fun st : Client c => st.world.published)
    (I := fun st => st.world.Accrued cfg) hw.accrued ?_ ?_ ?_ ?_
  · rw [hstart]
    exact LabelsKept.nil cfg
  · intro bs b hall
    exact ⟨fun hn => (List.pairwise_append.mp (hall.kept hn)).1,
      fun hn _ hb => hall.unnamed hn _ (List.mem_append_left _ hb)⟩
  · intro st e hacc
    rcases depthStep cfg hc st e with hstill | hpub
    · exact hacc.still hstill
    · exact hacc.published hpub
  · intro st e hacc
    rcases depthStep cfg hc st e with hstill | hpub
    · exact Or.inl ⟨hstill.published, fun h => absurd hstill.published h⟩
    · refine Or.inr ⟨_, hpub.published, fun hkept => ?_⟩
      have hgrows : (st.step cfg e).world.published ≠ st.world.published := by
        rw [hpub.published]
        simp
      rw [← hpub.published, ← hacc.mirrors_iff hpub hkept]
      exact ⟨fun h => h hgrows, fun h _ => h⟩

end Client

/-- **When the published depth mirrors the book.** In every run of a client that starts with
nothing reported, the depth entries name exactly the price labels of the book after every book
message if and only if no label ever leaves the book, a reconnect included. -/
theorem Venue.depth_mirrors_iff (x : Venue) (rfc3339 : String → Option ℤ) (cfg : Config) (w : World)
    (hw : w.Fresh cfg) (es : List (Event (x.client rfc3339))) :
    Trace.EachStep (Client.step cfg) (Client.MirrorsAfter cfg) (Client.start _ cfg w) es ↔
      LabelsKept cfg (Client.run _ cfg w es).world.published :=
  Client.mirrors_run_iff (x.publishesBook rfc3339) hw es

/-! ### A level that leaves the book -/

theorem named_okxConfig : okxConfig.Named := by
  constructor <;> decide

theorem fresh_okxConfig : World.Fresh okxConfig {} := by
  refine ⟨rfl, fun s x => ?_⟩
  rw [World.reports_iff named_okxConfig]
  cases s <;> simp [LobMetrics.depth]

/-- The client connects, subscribes and reads these messages, one after the other. -/
def okxRun (msgs : List Okx.OkxWsMessage) : List (Event Okx.client) :=
  [.connected { now := 0 }, .sent { now := 0 }, .sent { now := 0 }]
    ++ msgs.flatMap fun msg =>
      [.link (.arrive (.text "" (some msg))), .link (.poll { now := 0 })]

/-- An update changes a level and adds others: two books are published. -/
def growingRun : List (Event Okx.client) :=
  okxRun [Okx.booksMsg "snapshot" [("100", "1")] [("101", "1")],
    Okx.booksMsg "update" [("100", "3"), ("99", "1")] [("101.5", "2")]]

theorem Venue.depth_mirrors_iff_growingRun :
    Trace.EachStep (Client.step okxConfig) (Client.MirrorsAfter okxConfig)
      (Client.start Okx.client okxConfig {}) growingRun := by
  refine (Venue.depth_mirrors_iff .okx (fun _ => none) okxConfig {} fresh_okxConfig _).mpr ?_
  refine ⟨fun _ => ?_, fun h => absurd named_okxConfig h⟩
  have hheld : List.Pairwise (fun b b' : OrderBook => ∀ s, ∀ p ∈ (b.side s).keys, p ∈ b'.side s)
      (Client.run Okx.client okxConfig {} growingRun).world.published := by
    decide +kernel
  exact hheld.imp fun h s x hx => hx.mono (h s)

/-- An update removes the bid at 100, and it is reported as before. -/
theorem Venue.depth_not_mirrored :
    ¬ ∀ (x : Venue) (rfc3339 : String → Option ℤ) (cfg : Config) (w : World), w.Fresh cfg →
      ∀ es : List (Event (x.client rfc3339)),
        Trace.EachStep (Client.step cfg) (Client.MirrorsAfter cfg) (Client.start _ cfg w) es := by
  intro h
  have hrun := h .okx (fun _ => none) okxConfig {} fresh_okxConfig
    (okxRun [Okx.booksMsg "snapshot" [("100", "1")] [], Okx.booksMsg "update" [("100", "0")] []])
  have hkept := (Client.mirrors_run_iff Okx.writesBook.publishesBook fresh_okxConfig _).mp hrun
  exact absurd ((hkept.kept named_okxConfig).imp fun h => h .bid (.fin 100)) (by decide +kernel)

end Cryptomeria
