import Cryptomeria.Filter.Window

/-!
# Filtered snapshots and filtered books

`MaxLevelPct` can be had in two ways: `filter_snapshot_levels` before a snapshot is applied, and
`levels_within_pct` on the full book after it. The first measures with the best price listed, the
second with the best price that has got into the book. A level of size zero is listed and does not
get in, so the two windows differ when such a level has the best price. Both are computed on
doubles, with the same formula.
-/

set_option autoImplicit false

namespace Cryptomeria

open WriteLog

variable {s : Side} {p : ℚ}

/-! ## Windows of a best price -/

/-- A price is in the window of the best one exactly when it is in the window of each. -/
theorem inWindow_best_iff (h0 : 0 ≤ p) (h100 : p ≤ 100) {prices : F64 → Prop} {best r : F64}
    (hbest : prices best) (hle : ∀ q, prices q → (s.cmp best q).isLE)
    (hpos : ∀ q, prices q → q.gt F64.zero = true) :
    s.inWindow .double (.fin p) best r = true ↔
      ∀ q, prices q → s.inWindow .double (.fin p) q r = true := by
  constructor
  · intro h q hq
    exact Side.inWindow_of_isLE h0 h100 (hpos best hbest) (hpos q hq) (hle q hq) h
  · intro h
    exact h best hbest

theorem Levels.withinPct_eq (m : Levels s) (pct : F64) :
    m.withinPct pct = m.toList.filter fun e =>
      m.best.all fun best => s.inWindow .double pct best e.1 := by
  rw [Levels.withinPct]
  cases m.best <;> rfl

/-! ## The filter of a snapshot -/

namespace Lob

variable {L : Type} {view parse : L → Option (F64 × F64)}

theorem filterMap_filterSnapshotLevels_pct (b : OrderBook) {levels : List L}
    (hread : ∀ l ∈ levels, view l = parse l) (pct : F64) (best : Option F64) :
    (filterSnapshotLevels view b levels s (.maxLevelPct pct) best).filterMap parse
      = (levels.filterMap parse).filter fun e =>
          e.2.eq F64.zero || best.all fun best => s.inWindow .double pct best e.1 := by
  induction levels with
  | nil => rfl
  | cons l ls ih =>
    obtain ⟨hl, hls⟩ := List.forall_mem_cons.mp hread
    replace ih := ih hls
    rw [filterSnapshotLevels] at ih ⊢
    rw [List.filter_cons, List.filterMap_cons, hl]
    cases hp : parse l with
    | none => simpa [hp] using ih
    | some e =>
      have hincl : (LobFilter.maxLevelPct pct).shouldInclude
            (if s = .bid then best else b.bestBid) (if s = .ask then best else b.bestAsk) e.1 e.2
            (s = .bid) 0 false
          = (e.2.eq F64.zero || best.all fun best => s.inWindow .double pct best e.1) := by
        cases hz : e.2.eq F64.zero <;> cases s <;> cases best <;>
          simp [LobFilter.shouldInclude, hz, Side.inWindow, Side.within, Side.threshold]
      simp only [hincl, List.filter_cons]
      split
      · simp [hp, ih]
      · exact ih

theorem replaceSide_snapshotLevels_none (levels : List L) :
    replaceSide (∅ : Levels s) (snapshotLevels view parse none s levels)
      = replay ∅ (stores (levels.filterMap parse)) := by
  rw [snapshotLevels_none]
  cases levels <;> rfl

/-- A side that is empty stays so where the filter keeps nothing. -/
theorem replaceSide_snapshotLevels_some (levels : List L) (f : LobFilter) :
    replaceSide (∅ : Levels s) (snapshotLevels view parse (some f) s levels)
      = replay ∅ (stores ((filterSnapshotLevels view OrderBook.new levels s f
          (findBestPrice view levels s)).filterMap parse)) := by
  cases hes : snapshotLevels view parse (some f) s levels with
  | some es =>
    rw [snapshotLevels_eq_some hes]
    rfl
  | none =>
    have hnil : filterSnapshotLevels view OrderBook.new levels s f
        (findBestPrice view levels s) = [] := by
      rcases snapshotLevels_eq_none.mp hes with rfl | hnil
      · exact List.subset_nil.mp (filterSnapshotLevels_subset _ _ _ _ _)
      · exact hnil
    rw [hnil]
    rfl

end Lob

/-- Which of the positive levels are kept depends on their prices only. -/
theorem stores_filter_window (es : List (F64 × F64)) (inside : F64 → Bool) :
    stores (es.filter fun e => e.2.eq F64.zero || inside e.1)
      = (stores es).filter fun w => inside w.1 := by
  rw [stores, stores, List.filter_map, List.filter_filter, List.filter_filter]
  refine congrArg _ (List.filter_congr fun e _ => ?_)
  cases hpos : e.2.gt F64.zero with
  | true => simp [F64.eq_zero_of_gt_zero hpos]
  | false => simp

theorem replay_stores_filter (es : List (F64 × F64)) (inside : F64 → Bool) :
    replay (∅ : Levels s) (stores (es.filter fun e => e.2.eq F64.zero || inside e.1))
      = (replay (∅ : Levels s) (stores es)).filter fun k _ => inside k := by
  rw [stores_filter_window]
  exact replay_filter_key inside (stores es)

/-- A positive level in the window of every positive one is in the window of every level. -/
def HidesNothing (pct : F64) (s : Side) (es : List (F64 × F64)) : Prop :=
  ∀ e ∈ es, e.2.gt F64.zero = true →
    (∀ e' ∈ es, e'.2.gt F64.zero = true → s.inWindow .double pct e'.1 e.1 = true) →
      ∀ e' ∈ es, s.inWindow .double pct e'.1 e.1 = true

/-- The window of the best price that got into the book. -/
theorem best_stores_iff (h0 : 0 ≤ p) (h100 : p ≤ 100) {es : List (F64 × F64)}
    (hes : ∀ e ∈ es, e.1.gt F64.zero = true) {r : F64}
    (hr : r ∈ replay (∅ : Levels s) (stores es)) :
    ((Levels.best (replay (∅ : Levels s) (stores es))).all fun best =>
        s.inWindow .double (.fin p) best r) = true ↔
      ∀ e ∈ es, e.2.gt F64.zero = true → s.inWindow .double (.fin p) e.1 r = true := by
  have hpos : ∀ q ∈ replay (∅ : Levels s) (stores es), q.gt F64.zero = true := by
    intro q hq
    obtain ⟨e, he, -, rfl⟩ := mem_replay_stores.mp hq
    exact hes e he
  obtain ⟨best, hbest⟩ := Levels.exists_best hr
  rw [hbest, Option.all_some, inWindow_best_iff h0 h100 (Levels.best_mem hbest)
    (fun q hq => Levels.best_le hbest hq) hpos]
  simp only [mem_replay_stores]
  constructor
  · intro h e he hsize
    exact h e.1 ⟨e, he, hsize, rfl⟩
  · rintro h q ⟨e, he, hsize, rfl⟩
    exact h e he hsize

namespace Lob

variable {L : Type} {view parse : L → Option (F64 × F64)}

/-- The window of the best price listed. -/
theorem best_listed_iff (h0 : 0 ≤ p) (h100 : p ≤ 100) {levels : List L}
    (hread : ∀ l ∈ levels, view l = parse l)
    (hpos : ∀ e ∈ levels.filterMap parse, e.1.gt F64.zero = true) {r : F64}
    (hr : ∃ e ∈ levels.filterMap parse, e.1 = r) :
    ((findBestPrice view levels s).all fun best => s.inWindow .double (.fin p) best r) = true ↔
      ∀ e ∈ levels.filterMap parse, s.inWindow .double (.fin p) e.1 r = true := by
  have hview : ∀ l ∈ levels, ∀ e, view l = some e → e ∈ levels.filterMap parse := by
    intro l hl e he
    exact List.mem_filterMap.mpr ⟨l, hl, (hread l hl).symm.trans he⟩
  obtain ⟨e, he, rfl⟩ := hr
  cases hbest : findBestPrice view levels s with
  | none =>
    obtain ⟨l, hl, hparse⟩ := List.mem_filterMap.mp he
    have hnone := view_none_of_findBestPrice hbest l hl
    rw [hread l hl, hparse] at hnone
    simp at hnone
  | some best =>
    obtain ⟨l, hl, a, hlisted⟩ := exists_of_findBestPrice hbest
    have hle := findBestPrice_isLE (fun l hl e he => hpos e (hview l hl e he)) hbest
    have hbetter : ∀ q, (∃ e ∈ levels.filterMap parse, e.1 = q) → (s.cmp best q).isLE := by
      rintro _ ⟨e', he', rfl⟩
      obtain ⟨l', hl', hparse⟩ := List.mem_filterMap.mp he'
      exact hle l' hl' e' ((hread l' hl').trans hparse)
    have hprices : ∀ q, (∃ e ∈ levels.filterMap parse, e.1 = q) → q.gt F64.zero = true := by
      rintro _ ⟨e', he', rfl⟩
      exact hpos e' he'
    rw [Option.all_some, inWindow_best_iff h0 h100 ⟨(best, a), hview l hl _ hlisted, rfl⟩ hbetter
      hprices]
    constructor
    · intro h e' he'
      exact h e'.1 ⟨e', he', rfl⟩
    · rintro h _ ⟨e', he', rfl⟩
      exact h e' he'

/-- Filtering a snapshot filters the levels that it would have left. -/
theorem toList_filtered {levels : List L} (hread : ∀ l ∈ levels, view l = parse l) (pct : F64) :
    (replaceSide (∅ : Levels s)
        (snapshotLevels view parse (some (.maxLevelPct pct)) s levels)).toList
      = (replay (∅ : Levels s) (stores (levels.filterMap parse))).toList.filter fun e =>
          (findBestPrice view levels s).all fun best => s.inWindow .double pct best e.1 := by
  rw [replaceSide_snapshotLevels_some, filterMap_filterSnapshotLevels_pct _ hread]
  have hsides := replay_stores_filter (s := s) (levels.filterMap parse) fun r =>
    (findBestPrice view levels s).all fun best => s.inWindow .double pct best r
  -- a snapshot of what the filter keeps is the kept part of the snapshot
  refine (congrArg Std.ExtTreeMap.toList hsides).trans ?_
  exact Std.ExtTreeMap.toList_filter

/-- **One side of a snapshot**, filtered on the way in and filtered afterwards. -/
theorem toList_eq_withinPct_iff (h0 : 0 ≤ p) (h100 : p ≤ 100) {levels : List L}
    (hread : ∀ l ∈ levels, view l = parse l)
    (hpos : ∀ e ∈ levels.filterMap parse, e.1.gt F64.zero = true) :
    (replaceSide (∅ : Levels s)
        (snapshotLevels view parse (some (.maxLevelPct (.fin p))) s levels)).toList
      = (replaceSide (∅ : Levels s) (snapshotLevels view parse none s levels)).withinPct (.fin p) ↔
    HidesNothing (.fin p) s (levels.filterMap parse) := by
  rw [toList_filtered hread, replaceSide_snapshotLevels_none, Levels.withinPct_eq]
  constructor
  · intro h e he hsize hseen
    have hmem : e.1 ∈ replay (∅ : Levels s) (stores (levels.filterMap parse)) :=
      mem_replay_stores.mpr ⟨e, he, hsize, rfl⟩
    obtain ⟨v, hv⟩ := Option.isSome_iff_exists.mp (Std.ExtTreeMap.mem_iff_isSome_getElem?.mp hmem)
    have hafter : (e.1, v) ∈ (replay (∅ : Levels s) (stores (levels.filterMap parse))).toList.filter
        fun e => (Levels.best (replay (∅ : Levels s) (stores (levels.filterMap parse)))).all
          fun best => s.inWindow .double (.fin p) best e.1 :=
      List.mem_filter.mpr ⟨Std.ExtTreeMap.mem_toList_iff_getElem?_eq_some.mpr hv,
        (best_stores_iff h0 h100 hpos hmem).mpr hseen⟩
    -- what the full book shows at this price is in the filtered book, so it was let in
    rw [← h, List.mem_filter] at hafter
    exact (best_listed_iff h0 h100 hread hpos ⟨e, he, rfl⟩).mp hafter.2
  · intro h
    refine List.filter_congr fun e he => ?_
    have hmem : e.1 ∈ replay (∅ : Levels s) (stores (levels.filterMap parse)) := by
      rw [Std.ExtTreeMap.mem_iff_isSome_getElem?,
        Std.ExtTreeMap.mem_toList_iff_getElem?_eq_some.mp he]
      rfl
    obtain ⟨e', he', hsize, hprice⟩ := mem_replay_stores.mp hmem
    rw [Bool.eq_iff_iff, best_listed_iff h0 h100 hread hpos ⟨e', he', hprice⟩,
      best_stores_iff h0 h100 hpos hmem, ← hprice]
    constructor
    · intro hlisted x hx _
      exact hlisted x hx
    · exact h e' he' hsize

end Lob

instance (pct : F64) (s : Side) (es : List (F64 × F64)) : Decidable (HidesNothing pct s es) :=
  inferInstanceAs (Decidable (∀ e ∈ es, e.2.gt F64.zero = true →
    (∀ e' ∈ es, e'.2.gt F64.zero = true → s.inWindow .double pct e'.1 e.1 = true) →
      ∀ e' ∈ es, s.inWindow .double pct e'.1 e.1 = true))

theorem OrderBook.eq_levelsWithinPct_iff {b b' : OrderBook} {pct : F64} :
    (b.bids.toList, b.asks.toList) = b'.levelsWithinPct pct ↔
      ∀ s, (b.side s).toList = (b'.side s).withinPct pct := by
  rw [OrderBook.levelsWithinPct, Prod.mk.injEq]
  constructor
  · rintro ⟨hbids, hasks⟩ s
    cases s
    · exact hbids
    · exact hasks
  · exact fun h => ⟨h .bid, h .ask⟩

theorem BookModel.side_snapshot_new {x : BookModel} {msg : x.Msg} (hk : x.kind msg = .snapshot)
    (filter : Option LobFilter) (s : Side) :
    x.side (x.processMsg msg filter x.new) s = replaceSide ∅ (x.snapshot msg filter s) := by
  rw [x.side_snapshot _ _ _ _ hk, x.side_new]

/-- **When a filtered snapshot is the filtered full book**, for OKX and Kraken. On an empty book
`MaxLevelPct` leaves the levels that `levels_within_pct` returns without it if and only if on
each side every positive level in the window of all positive ones is in the window of all levels
listed, those of size zero among them. -/
theorem filtered_snapshot_iff (p : ℚ) (h0 : 0 ≤ p) (h100 : p ≤ 100) :
    (∀ msg : Okx.OkxWsMessage, Okx.model.kind msg = .snapshot →
      (∀ s, ∀ e ∈ Okx.model.entries msg s, e.1.gt F64.zero = true) →
      let b := Okx.processMsg msg (some (.maxLevelPct (.fin p))) OrderBook.new
      ((b.bids.toList, b.asks.toList)
          = (Okx.processMsg msg none OrderBook.new).levelsWithinPct (.fin p) ↔
        ∀ s, HidesNothing (.fin p) s (Okx.model.entries msg s))) ∧
    (∀ msg : Kraken.KrakenWsMessage, Kraken.model.kind msg = .snapshot →
      (∀ s, ∀ e ∈ Kraken.model.entries msg s, e.1.gt F64.zero = true) →
      let b := Kraken.processMsg msg (some (.maxLevelPct (.fin p))) OrderBook.new
      ((b.bids.toList, b.asks.toList)
          = (Kraken.processMsg msg none OrderBook.new).levelsWithinPct (.fin p) ↔
        ∀ s, HidesNothing (.fin p) s (Kraken.model.entries msg s))) := by
  constructor
  · intro msg hk hpos
    have hside : ∀ filter s, (Okx.processMsg msg filter OrderBook.new).side s
        = replaceSide (∅ : Levels s) (Okx.model.snapshot msg filter s) :=
      BookModel.side_snapshot_new hk
    simp only [OrderBook.eq_levelsWithinPct_iff, hside]
    exact forall_congr' fun s => Lob.toList_eq_withinPct_iff h0 h100 (fun _ _ => rfl) (hpos s)
  · intro msg hk hpos
    have hside : ∀ filter s, (Kraken.processMsg msg filter OrderBook.new).side s
        = replaceSide (∅ : Levels s) (Kraken.model.snapshot msg filter s) :=
      BookModel.side_snapshot_new hk
    simp only [OrderBook.eq_levelsWithinPct_iff, hside]
    refine forall_congr' fun s => Lob.toList_eq_withinPct_iff h0 h100 ?_ (hpos s)
    intro l hl
    obtain ⟨d, hd⟩ := Lob.mem_levelsOf hl
    exact (Kraken.parseLevel_of_mem_parseLevels hd).symm

/-- An ask of size zero is listed first, near the one that counts. -/
def zeroFirst (price : String) : Okx.model.Msg :=
  Okx.booksMsg "snapshot" [] [(price, "0"), ("101", "1"), ("105", "1"), ("120", "1")]

theorem filtered_snapshot_iff_zeroFirst :
    let b := Okx.processMsg (zeroFirst "100") (some (.maxLevelPct (.fin 10))) OrderBook.new
    (b.bids.toList, b.asks.toList)
      = (Okx.processMsg (zeroFirst "100") none OrderBook.new).levelsWithinPct (.fin 10) :=
  ((filtered_snapshot_iff 10 (by norm_num) (by norm_num)).1 (zeroFirst "100") (by decide +kernel)
    (by decide +kernel)).mpr (by decide +kernel)

/-- A zero ask at 95 pulls the window down to 104.5, and the ask at 105 is lost. -/
theorem filtered_snapshot_misses :
    ¬ ∀ (p : ℚ), 0 ≤ p → p ≤ 100 → ∀ msg : Okx.OkxWsMessage, Okx.model.kind msg = .snapshot →
      (∀ s, ∀ e ∈ Okx.model.entries msg s, e.1.gt F64.zero = true) →
      let b := Okx.processMsg msg (some (.maxLevelPct (.fin p))) OrderBook.new
      (b.bids.toList, b.asks.toList)
        = (Okx.processMsg msg none OrderBook.new).levelsWithinPct (.fin p) := by
  intro h
  have hsame := h 10 (by norm_num) (by norm_num) (zeroFirst "95") (by decide +kernel)
    (by decide +kernel)
  exact absurd hsame (by decide +kernel)

end Cryptomeria
