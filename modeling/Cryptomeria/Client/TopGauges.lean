import Cryptomeria.Client.Depth

/-!
# The published top of the book

Three gauges have the best bid, the best ask and the spread. Each is set if the book has a value
for it and keeps its old one otherwise, so it has the last value that a published book had
(`Accumulates`). The three are those of the present book only as long as no side becomes empty again
(`Venue.top_consistent_iff`).
-/

set_option autoImplicit false

namespace Cryptomeria

/-- The last value that one of the books has. -/
def lastValue (value : OrderBook → Option F64) (books : List OrderBook) : Option F64 :=
  (books.filterMap value).getLast?

theorem lastValue_concat (value : OrderBook → Option F64) (books : List OrderBook)
    (b : OrderBook) :
    lastValue value (books ++ [b]) = (value b).or (lastValue value books) := by
  rw [lastValue, lastValue, List.filterMap_append, List.getLast?_append]
  cases h : value b <;> simp [h]

/-- A book that has no value leaves the last one, unless there is none. -/
theorem lastValue_concat_eq_iff {value : OrderBook → Option F64} {books : List OrderBook}
    {b : OrderBook} :
    lastValue value (books ++ [b]) = value b ↔
      ∀ b' ∈ books, (value b').isSome = true → (value b).isSome = true := by
  rw [lastValue_concat]
  cases h : value b with
  | some v => simp
  | none => simp [lastValue]

/-- Once a side has levels, it has some in every later book. -/
def SidesKept (books : List OrderBook) : Prop :=
  books.Pairwise fun b b' => ∀ s, b.side s ≠ ∅ → b'.side s ≠ ∅

namespace OrderBook

variable {b : OrderBook}

theorem bestBid_isSome_iff : b.bestBid.isSome = true ↔ b.side .bid ≠ ∅ := by
  rw [← Option.ne_none_iff_isSome, bestBid, Ne, Levels.best_eq_none]
  rfl

theorem bestAsk_isSome_iff : b.bestAsk.isSome = true ↔ b.side .ask ≠ ∅ := by
  rw [← Option.ne_none_iff_isSome, bestAsk, Ne, Levels.best_eq_none]
  rfl

theorem spread_isSome_iff :
    b.spread.isSome = true ↔ b.bestBid.isSome = true ∧ b.bestAsk.isSome = true := by
  rw [spread]
  cases b.bestBid <;> cases b.bestAsk <;> simp

theorem spread_eq {bid ask : F64} (hbid : b.bestBid = some bid) (hask : b.bestAsk = some ask) :
    b.spread = some (ask.sub bid) := by
  rw [spread, hbid, hask]

end OrderBook

namespace World

variable {cfg : Config} {w w' : World} {b : OrderBook}

/-- The three gauges of the client are those of the book, a side without levels has none, and the
spread is the difference of the other two. -/
structure ShowsTop (cfg : Config) (w : World) (b : OrderBook) : Prop where
  bestBid : w.metrics.bestBid[cfg.labels]? = b.bestBid
  bestAsk : w.metrics.bestAsk[cfg.labels]? = b.bestAsk
  spread : w.metrics.spread[cfg.labels]? = b.spread
  difference : ∀ bid ∈ w.metrics.bestBid[cfg.labels]?, ∀ ask ∈ w.metrics.bestAsk[cfg.labels]?,
    ∀ spread ∈ w.metrics.spread[cfg.labels]?, spread = ask.sub bid

/-- The gauges have what was last published for each of them. -/
structure Accumulates (cfg : Config) (w : World) : Prop where
  bestBid : w.metrics.bestBid[cfg.labels]? = lastValue OrderBook.bestBid w.published
  bestAsk : w.metrics.bestAsk[cfg.labels]? = lastValue OrderBook.bestAsk w.published
  spread : w.metrics.spread[cfg.labels]? = lastValue OrderBook.spread w.published

/-- The client has published nothing, and the three gauges have no value under its labels. -/
structure Untouched (cfg : Config) (w : World) : Prop where
  published : w.published = []
  bestBid : cfg.labels ∉ w.metrics.bestBid
  bestAsk : cfg.labels ∉ w.metrics.bestAsk
  spread : cfg.labels ∉ w.metrics.spread

theorem Untouched.accumulates (h : w.Untouched cfg) : w.Accumulates cfg := by
  have hnone : ∀ g : GaugeVec, cfg.labels ∉ g → g[cfg.labels]? = none :=
    fun _ hg => Std.ExtTreeMap.getElem?_eq_none hg
  constructor
  · rw [h.published]
    exact hnone _ h.bestBid
  · rw [h.published]
    exact hnone _ h.bestAsk
  · rw [h.published]
    exact hnone _ h.spread

theorem getElem?_setIfSome (g : GaugeVec) (labels : List String) (value : Option F64) :
    (setIfSome g labels value)[labels]? = value.or g[labels]? := by
  cases value with
  | some v => simp [setIfSome]
  | none => rfl

theorem Accumulates.quiet (h : w.Accumulates cfg) (hw : Quiet w w') : w'.Accumulates cfg := by
  obtain ⟨trades, hm⟩ := hw.metrics
  exact ⟨by rw [hm, hw.published]; exact h.bestBid, by rw [hm, hw.published]; exact h.bestAsk,
    by rw [hm, hw.published]; exact h.spread⟩

theorem Accumulates.publish (h : w.Accumulates cfg) (now : ℕ) (b : OrderBook) :
    (w.publish cfg now b).Accumulates cfg := by
  constructor
  · rw [publish_published, lastValue_concat, ← h.bestBid, ← getElem?_setIfSome]
    simp [World.publish, updateDepthMetrics, updateLobMetrics]
  · rw [publish_published, lastValue_concat, ← h.bestAsk, ← getElem?_setIfSome]
    simp [World.publish, updateDepthMetrics, updateLobMetrics]
  · rw [publish_published, lastValue_concat, ← h.spread, ← getElem?_setIfSome]
    simp [World.publish, updateDepthMetrics, updateLobMetrics]

/-- The gauges are those of the book that was published last if and only if it has levels wherever
an earlier one had some. -/
theorem Accumulates.showsTop_iff (h : w.Accumulates cfg) {books : List OrderBook}
    (hw : w.published = books ++ [b]) :
    w.ShowsTop cfg b ↔ ∀ b' ∈ books, ∀ s, b'.side s ≠ ∅ → b.side s ≠ ∅ := by
  obtain ⟨hbid, hask, hspread⟩ := h
  rw [hw] at hbid hask hspread
  constructor
  · intro hs b' hb' s hne
    cases s with
    | bid =>
      rw [← OrderBook.bestBid_isSome_iff] at hne ⊢
      exact lastValue_concat_eq_iff.mp (hbid.symm.trans hs.bestBid) b' hb' hne
    | ask =>
      rw [← OrderBook.bestAsk_isSome_iff] at hne ⊢
      exact lastValue_concat_eq_iff.mp (hask.symm.trans hs.bestAsk) b' hb' hne
  · intro hkept
    have hbid' : ∀ b' ∈ books, b'.bestBid.isSome = true → b.bestBid.isSome = true := by
      intro b' hb'
      rw [OrderBook.bestBid_isSome_iff, OrderBook.bestBid_isSome_iff]
      exact hkept b' hb' .bid
    have hask' : ∀ b' ∈ books, b'.bestAsk.isSome = true → b.bestAsk.isSome = true := by
      intro b' hb'
      rw [OrderBook.bestAsk_isSome_iff, OrderBook.bestAsk_isSome_iff]
      exact hkept b' hb' .ask
    have hspread' : ∀ b' ∈ books, b'.spread.isSome = true → b.spread.isSome = true := by
      intro b' hb'
      rw [OrderBook.spread_isSome_iff, OrderBook.spread_isSome_iff]
      exact And.imp (hbid' b' hb') (hask' b' hb')
    rw [lastValue_concat_eq_iff.mpr hbid'] at hbid
    rw [lastValue_concat_eq_iff.mpr hask'] at hask
    rw [lastValue_concat_eq_iff.mpr hspread'] at hspread
    refine ⟨hbid, hask, hspread, fun bid hb ask ha spread hs => ?_⟩
    rw [hbid] at hb
    rw [hask] at ha
    rw [hspread, OrderBook.spread_eq hb ha] at hs
    exact (Option.some.inj hs).symm

end World

/-! ## Runs -/

namespace Client

variable {c : ClientSpec} {cfg : Config}

/-- If the step publishes a book, the gauges show the top of the book the client then holds. -/
def ShowsTopAfter (cfg : Config) (st : Client c) (e : Event c) : Prop :=
  (st.step cfg e).world.published ≠ st.world.published →
    (st.step cfg e).world.ShowsTop cfg (c.book (st.step cfg e).conn.session)

theorem showsTop_run_iff (hc : c.WritesBook) {w : World} (hw : w.Untouched cfg)
    (es : List (Event c)) :
    Trace.EachStep (step cfg) (ShowsTopAfter cfg) (start c cfg w) es ↔
      SidesKept (run c cfg w es).world.published := by
  have hstart : (start c cfg w).world.published = [] := hw.published
  have hinv : ∀ (st : Client c) e, st.world.Accumulates cfg →
      (st.step cfg e).world.Accumulates cfg := by
    intro st e hacc
    rcases writes cfg hc st e with hquiet | ⟨now, w₁, hbefore, hafter⟩
    · exact hacc.quiet hquiet
    · exact ((hacc.quiet hbefore).publish now _).quiet hafter
  refine Trace.eachStep_iff_history (fun st : Client c => st.world.published)
    (I := fun st => st.world.Accumulates cfg) hw.accumulates ?_ ?_ hinv ?_
  · rw [hstart]
    exact List.Pairwise.nil
  · intro bs b hall
    exact (List.pairwise_append.mp hall).1
  · intro st e hacc
    rcases writes cfg hc st e with hquiet | ⟨now, w₁, hbefore, hafter⟩
    · exact Or.inl ⟨hquiet.published, fun h => absurd hquiet.published h⟩
    · have hpub : (st.step cfg e).world.published
          = st.world.published ++ [c.book (st.step cfg e).conn.session] := by
        rw [hafter.published, World.publish_published, hbefore.published]
      refine Or.inr ⟨_, hpub, fun hkept => ?_⟩
      have hgrows : (st.step cfg e).world.published ≠ st.world.published := by
        rw [hpub]
        simp
      have htop := (hinv st e hacc).showsTop_iff hpub
      rw [SidesKept, List.pairwise_append]
      constructor
      · intro h
        refine ⟨hkept, List.pairwise_singleton _ _, fun b' hb' b hb => ?_⟩
        rw [List.mem_singleton.mp hb]
        exact htop.mp (h hgrows) b' hb'
      · rintro ⟨-, -, hall⟩ -
        exact htop.mpr fun b' hb' => hall b' hb' _ (by simp)

end Client

/-- **When the published top is that of the book.** In every run of a client that starts with
nothing published, the three gauges are those of the book after every book message if and only if
no side becomes empty once it had levels, a reconnect included. -/
theorem Venue.top_consistent_iff (x : Venue) (rfc3339 : String → Option ℤ) (cfg : Config)
    (w : World) (hw : w.Untouched cfg) (es : List (Event (x.client rfc3339))) :
    Trace.EachStep (Client.step cfg) (Client.ShowsTopAfter cfg) (Client.start _ cfg w) es ↔
      SidesKept (Client.run _ cfg w es).world.published :=
  Client.showsTop_run_iff (x.writesBook rfc3339) hw es

theorem untouched_okxConfig : World.Untouched okxConfig {} := by
  constructor <;> simp

/-- An update replaces the best bid and the best ask. -/
def replacingRun : List (Event Okx.client) :=
  okxRun [Okx.booksMsg "snapshot" [("100", "1")] [("101", "1")],
    Okx.booksMsg "update" [("100", "0"), ("99", "1")] [("101", "0"), ("105", "1")]]

theorem Venue.top_consistent_iff_replacingRun :
    Trace.EachStep (Client.step okxConfig) (Client.ShowsTopAfter okxConfig)
      (Client.start Okx.client okxConfig {}) replacingRun := by
  refine (Venue.top_consistent_iff .okx (fun _ => none) okxConfig {} untouched_okxConfig _).mpr ?_
  have hheld : List.Pairwise (fun _ b' : OrderBook => ∀ s, (b'.side s).isEmpty = false)
      (Client.run Okx.client okxConfig {} replacingRun).world.published := by
    decide +kernel
  refine hheld.imp fun h s _ hempty => ?_
  have hsome := h s
  rw [hempty] at hsome
  exact absurd hsome (by simp)

/-- The bid is removed and the ask moves: the gauges say 100, 105 and 1. -/
theorem Venue.top_left_over :
    ¬ ∀ (x : Venue) (rfc3339 : String → Option ℤ) (cfg : Config) (w : World), w.Untouched cfg →
      ∀ es : List (Event (x.client rfc3339)),
        Trace.EachStep (Client.step cfg) (Client.ShowsTopAfter cfg) (Client.start _ cfg w) es := by
  intro h
  have hrun := h .okx (fun _ => none) okxConfig {} untouched_okxConfig
    (okxRun [Okx.booksMsg "snapshot" [("100", "1")] [("101", "1")],
      Okx.booksMsg "update" [("100", "0")] [("101", "0"), ("105", "1")]])
  have hkept := (Client.showsTop_run_iff Okx.writesBook untouched_okxConfig _).mp hrun
  have hbids := hkept.imp (S := fun b b' => b.bestBid.isSome = true → b'.bestBid.isSome = true)
    fun h hb => OrderBook.bestBid_isSome_iff.mpr (h .bid (OrderBook.bestBid_isSome_iff.mp hb))
  exact absurd hbids (by decide +kernel)

end Cryptomeria
