import Cryptomeria.Filter.Window

/-!
# What a filtered snapshot leaves

The side that a snapshot fills under `MaxLevel` and `MaxLevelPct`, level by level. OKX and Kraken
sort the positive levels of the message before they cut the list, so the order of the message does
not matter (`snapshot_maxLevel_holdsBest`). Bitstamp cuts the list as it comes, first by the filter
and then at the snapshot depth, and relies on the order in which the exchange sends it
(`Bitstamp.filtered_snapshot_exact`).
-/

set_option autoImplicit false

namespace Cryptomeria

open WriteLog

variable {s : Side}

/-- The entries of a list that a snapshot stores. -/
def positiveEntries (es : List (F64 × F64)) : List (F64 × F64) :=
  es.filter fun e => e.2.gt F64.zero

theorem stores_eq_map (es : List (F64 × F64)) :
    stores es = (positiveEntries es).map fun e => (e.1, some e.2) := rfl

theorem positiveEntries_of_forall {es : List (F64 × F64)}
    (h : ∀ e ∈ es, e.2.gt F64.zero = true) : positiveEntries es = es :=
  List.filter_eq_self.mpr h

theorem gt_zero_of_mem_positiveEntries {es : List (F64 × F64)} {e : F64 × F64}
    (h : e ∈ positiveEntries es) : e.2.gt F64.zero = true := (List.mem_filter.mp h).2

/-- The entries run from the best price to the worst, no price twice. -/
def BestFirst (s : Side) (es : List (F64 × F64)) : Prop :=
  es.Pairwise fun e e' => s.cmp e.1 e'.1 = .lt

/-- A side that is filled from a list with the best price first is that list. -/
theorem toList_replay_stores {es : List (F64 × F64)} (hsorted : BestFirst s es)
    (hpos : ∀ e ∈ es, e.2.gt F64.zero = true) :
    (replay (∅ : Levels s) (stores es)).toList = es := by
  rw [stores_eq_map, positiveEntries_of_forall hpos]
  exact toList_replay_stored hsorted

/-! ## The best of a list -/

/-- The side holds the `n` best of the positive entries with their sizes, or all of them if there
are fewer, and nothing else. -/
structure HoldsBest (m : Levels s) (n : ℕ) (es : List (F64 × F64)) : Prop where
  size : m.size = min n (positiveEntries es).length
  listed : ∀ p v, m[p]? = some v → (p, v) ∈ positiveEntries es
  /-- What is left out is worse than everything held. -/
  best : ∀ e ∈ positiveEntries es, e.1 ∉ m → ∀ p ∈ m, s.beats p e.1 = true

/-- What a sorted list loses when it is cut comes after what it keeps. -/
theorem rel_of_take {α : Type} {R : α → α → Prop} {l : List α} (h : l.Pairwise R) {n : ℕ}
    {a b : α} (ha : a ∈ l.take n) (hb : b ∈ l) (hcut : b ∉ l.take n) : R a b := by
  rw [← List.take_append_drop n l] at h hb
  rcases List.mem_append.mp hb with hb | hb
  · exact absurd hb hcut
  · exact (List.pairwise_append.mp h).2.2 a ha b hb

/-- On finite prices, in front unless the other one is strictly better is the order of the side. -/
theorem not_beats_eq_isLE {a b : F64} (ha : a ≠ .nan) (hb : b ≠ .nan) :
    (!s.beats b a) = (s.cmp a b).isLE := by
  have hswap : s.beats b a = true ↔ s.cmp b a = .lt := Side.beats_iff hb ha
  rw [@Std.OrientedCmp.eq_swap _ s.cmp] at hswap
  cases hc : s.cmp a b with
  | lt | eq | gt =>
    rw [hc] at hswap
    simpa using hswap

/-- The positive entries, best price first. -/
def rankedEntries (s : Side) (es : List (F64 × F64)) : List (F64 × F64) :=
  (positiveEntries es).mergeSort fun x y => !s.beats y.1 x.1

theorem mem_rankedEntries {es : List (F64 × F64)} {e : F64 × F64} :
    e ∈ rankedEntries s es ↔ e ∈ positiveEntries es := List.mem_mergeSort

theorem bestFirst_rankedEntries {es : List (F64 × F64)} (hnodup : (es.map Prod.fst).Nodup)
    (hnum : ∀ e ∈ es, e.1 ≠ .nan) : BestFirst s (rankedEntries s es) := by
  have hnum' : ∀ e ∈ positiveEntries es, e.1 ≠ .nan := fun e he =>
    hnum e (List.mem_filter.mp he).1
  -- NaN would make the comparison intransitive; without it the sort follows the order of the keys
  have hsort : rankedEntries s es
      = (positiveEntries es).mergeSort fun x y => (s.cmp x.1 y.1).isLE := by
    have hmap := @List.map_mergeSort _ _ (fun x y : F64 × F64 => !s.beats y.1 x.1)
      (fun x y => (s.cmp x.1 y.1).isLE) id (positiveEntries es)
      fun a ha b hb => not_beats_eq_isLE (hnum' a ha) (hnum' b hb)
    simpa [rankedEntries] using hmap
  have hle : (rankedEntries s es).Pairwise fun e e' => (s.cmp e.1 e'.1).isLE := by
    rw [hsort]
    refine List.pairwise_mergeSort (fun a b c => Std.TransCmp.isLE_trans) (fun a b => ?_) _
    cases hab : s.cmp a.1 b.1 with
    | lt | eq => rfl
    | gt => simp [@Std.OrientedCmp.eq_swap _ s.cmp _ b.1, hab]
  have hne : (rankedEntries s es).Pairwise fun e e' => e.1 ≠ e'.1 := by
    have hkeys : ((rankedEntries s es).map Prod.fst).Nodup := by
      refine ((List.mergeSort_perm _ _).map Prod.fst).nodup_iff.mpr ?_
      exact hnodup.sublist (List.filter_sublist.map Prod.fst)
    exact List.pairwise_map.mp hkeys
  refine (hle.and hne).imp fun h => ?_
  cases hc : s.cmp _ _ with
  | lt => rfl
  | eq => exact absurd (Std.LawfulEqCmp.eq_of_compare hc) h.2
  | gt => simp [hc] at h

/-- A side that is filled from the first `n` ranked entries holds the `n` best. -/
theorem holdsBest_take {es : List (F64 × F64)} (hnodup : (es.map Prod.fst).Nodup)
    (hnum : ∀ e ∈ es, e.1 ≠ .nan) (n : ℕ) :
    HoldsBest (replay (∅ : Levels s) (stores ((rankedEntries s es).take n))) n es := by
  have hranked : BestFirst s (rankedEntries s es) := bestFirst_rankedEntries hnodup hnum
  have hlist := toList_replay_stores (hranked.sublist (List.take_sublist n _)) fun e he =>
    gt_zero_of_mem_positiveEntries (mem_rankedEntries.mp (List.mem_of_mem_take he))
  generalize hm : replay (∅ : Levels s) (stores ((rankedEntries s es).take n)) = m at hlist
  have hheld : ∀ p v, m[p]? = some v ↔ (p, v) ∈ (rankedEntries s es).take n := by
    intro p v
    rw [← hlist, Std.ExtTreeMap.mem_toList_iff_getElem?_eq_some]
  refine ⟨?_, fun p v hv => ?_, fun e he hout p hp => ?_⟩
  · rw [← Std.ExtTreeMap.length_toList, hlist, List.length_take, rankedEntries,
      List.length_mergeSort]
  · exact mem_rankedEntries.mp (List.mem_of_mem_take ((hheld p v).mp hv))
  · obtain ⟨v, hv⟩ := Option.isSome_iff_exists.mp (Std.ExtTreeMap.mem_iff_isSome_getElem?.mp hp)
    have hkept := (hheld p v).mp hv
    have hcut : e ∉ (rankedEntries s es).take n := by
      intro hin
      refine hout (Std.ExtTreeMap.mem_iff_isSome_getElem?.mpr ?_)
      rw [(hheld e.1 e.2).mpr hin]
      rfl
    have hlt : s.cmp p e.1 = .lt := rel_of_take hranked hkept (mem_rankedEntries.mpr he) hcut
    have hin : (p, v) ∈ positiveEntries es := mem_rankedEntries.mp (List.mem_of_mem_take hkept)
    refine (Side.beats_iff ?_ ?_).mpr hlt
    · exact hnum _ (List.mem_filter.mp hin).1
    · exact hnum _ (List.mem_filter.mp he).1

namespace Lob

variable {L : Type} {view parse : L → Option (F64 × F64)}

/-- What `MaxLevel` reads of the levels it sorts are the positive entries. -/
theorem map_positiveLevels (levels : List L) :
    (positiveLevels view levels).map (fun x => (x.1, x.2.1))
      = positiveEntries (levels.filterMap view) := by
  rw [positiveLevels, positiveEntries]
  induction levels with
  | nil => rfl
  | cons l ls ih =>
    rw [List.filterMap_cons, List.filterMap_cons]
    cases view l with
    | none => exact ih
    | some e =>
      by_cases hpos : e.2.gt F64.zero = true
      · simpa [hpos] using ih
      · simpa [hpos] using ih

/-- The levels that `MaxLevel` keeps are the first `n` ranked entries. -/
theorem filterMap_filterSnapshotLevels_maxLevel (b : OrderBook) {levels : List L}
    (hread : ∀ l ∈ levels, view l = parse l) (s : Side) (n : ℕ) (best : Option F64) :
    (filterSnapshotLevels view b levels s (.maxLevel n) best).filterMap parse
      = (rankedEntries s (levels.filterMap parse)).take n := by
  rw [filterSnapshotLevels_maxLevel, List.filterMap_map]
  have hparse : ∀ x ∈ ((positiveLevels view levels).mergeSort fun x y => !s.beats y.1 x.1).take n,
      (parse ∘ fun x : F64 × F64 × L => x.2.2) x = some (x.1, x.2.1) := by
    rintro ⟨price, amount, l⟩ hx
    have hin := List.mem_mergeSort.mp (List.mem_of_mem_take hx)
    obtain ⟨hl, hv, -⟩ := mem_positiveLevels.mp hin
    exact (hread l hl).symm.trans hv
  have hmap : ((positiveLevels view levels).mergeSort fun x y => !s.beats y.1 x.1).map
      (fun x => (x.1, x.2.1)) = rankedEntries s (levels.filterMap parse) := by
    rw [List.map_mergeSort (s := fun x y : F64 × F64 => !s.beats y.1 x.1) fun _ _ _ _ => rfl]
    rw [map_positiveLevels, List.filterMap_congr hread]
    rfl
  rw [List.filterMap_congr hparse, List.filterMap_eq_map', List.map_take, hmap]

theorem snapshotLevels_maxLevel {levels : List L} (hread : ∀ l ∈ levels, view l = parse l)
    (s : Side) {n : ℕ} (hn : 1 ≤ n) (hpos : positiveEntries (levels.filterMap parse) ≠ []) :
    snapshotLevels view parse (some (.maxLevel n)) s levels
      = some ((rankedEntries s (levels.filterMap parse)).take n) := by
  cases hes : snapshotLevels view parse (some (.maxLevel n)) s levels with
  | some es => rw [snapshotLevels_eq_some hes, filterMap_filterSnapshotLevels_maxLevel _ hread]
  | none =>
    -- with a positive entry and room for it, the filter keeps something
    obtain ⟨e, he⟩ := List.exists_mem_of_ne_nil _ hpos
    obtain ⟨hlist, hgt⟩ := List.mem_filter.mp he
    obtain ⟨l, hl, hp⟩ := List.mem_filterMap.mp hlist
    rcases snapshotLevels_eq_none.mp hes with rfl | hnil
    · simp at hl
    · rcases filterSnapshotLevels_maxLevel_eq_nil.mp hnil with hzero | hnone
      · omega
      · have := hnone l hl e ((hread l hl).trans hp)
        simp [hgt] at this

end Lob

/-- **A `MaxLevel` snapshot keeps the top of the book**, for OKX and Kraken. When a snapshot lists
distinct finite prices for a side and at least one positive size, in whatever order, the side holds
the `n` best of the positive entries and nothing of the earlier book. -/
theorem Exchange.snapshot_maxLevel_holdsBest (x : Exchange) (hx : x = .okx ∨ x = .kraken)
    (msg : x.model.Msg) (hk : x.model.kind msg = .snapshot) (s : Side)
    (hnodup : ((x.model.entries msg s).map Prod.fst).Nodup)
    (hfinite : ∀ e ∈ x.model.entries msg s, ∃ q, e.1 = .fin q)
    (hpos : 1 ≤ (positiveEntries (x.model.entries msg s)).length) (n : ℕ) (hn : 1 ≤ n)
    (b : x.model.Book) :
    HoldsBest (x.model.side (x.model.processMsg msg (some (.maxLevel n)) b) s) n
      (x.model.entries msg s) := by
  have hnum : ∀ e ∈ x.model.entries msg s, e.1 ≠ .nan := by
    intro e he hnan
    obtain ⟨q, hq⟩ := hfinite e he
    rw [hq] at hnan
    simp at hnan
  have hne := List.ne_nil_of_length_pos hpos
  have hsnap : x.model.snapshot msg (some (.maxLevel n)) s
      = some ((rankedEntries s (x.model.entries msg s)).take n) := by
    rcases hx with rfl | rfl
    · exact Lob.snapshotLevels_maxLevel (fun _ _ => rfl) s hn hne
    · refine Lob.snapshotLevels_maxLevel (fun l hl => ?_) s hn hne
      obtain ⟨d, hd⟩ := Lob.mem_levelsOf hl
      exact (Kraken.parseLevel_of_mem_parseLevels hd).symm
  rw [x.model.side_snapshot _ _ _ _ hk, hsnap]
  exact holdsBest_take hnodup hnum n

/-- Bids out of order, the best two with a removal and an unreadable level between them. -/
def shuffledBids : Exchange.okx.model.Msg :=
  Okx.booksMsg "snapshot" [("99", "1"), ("101", "2"), ("102", "0"), ("x", "1"), ("100", "3")] []

theorem Exchange.snapshot_maxLevel_holdsBest_shuffledBids :
    HoldsBest (Exchange.okx.model.side (Exchange.okx.model.processMsg shuffledBids
      (some (.maxLevel 2)) Exchange.okx.model.new) .bid) 2
      (Exchange.okx.model.entries shuffledBids .bid) := by
  refine Exchange.snapshot_maxLevel_holdsBest .okx (Or.inl rfl) shuffledBids (by decide +kernel)
    .bid (by decide +kernel) ?_ (by decide +kernel) 2 (by decide) _
  have hentries : Exchange.okx.model.entries shuffledBids .bid
      = [(.fin 99, .fin 1), (.fin 101, .fin 2), (.fin 102, .fin 0), (.fin 100, .fin 3)] := by
    decide +kernel
  rw [hentries]
  simp

/-! ## The snapshots of Bitstamp -/

/-- `price` is within `p` percent of `best`. -/
def withinPercent (p : ℚ) : F64 → F64 → Bool
  | .fin best, .fin price => |price - best| * 100 ≤ p * best
  | _, _ => false

/-- The entries within `p` percent of the first one. -/
def withinFirst (p : ℚ) (es : List (F64 × F64)) : List (F64 × F64) :=
  es.filter fun e => es.head?.any fun first => withinPercent p first.1 e.1

theorem inWindow_eq_withinPercent {p : ℚ} {best price : F64} (hb : best.IsPos)
    (hp : price.IsPos) (hle : best = price ∨ s.cmp best price = .lt) :
    s.inWindow .exact (.fin p) best price = withinPercent p best price := by
  obtain ⟨b, rfl, hb⟩ := F64.isPos_iff.mp hb
  obtain ⟨q, rfl, -⟩ := F64.isPos_iff.mp hp
  rw [Bool.eq_iff_iff, Side.inWindow_exact]
  simp only [withinPercent, decide_eq_true_eq]
  have hnear : ∀ d : ℚ, 0 ≤ d → (|d| * 100 ≤ p * b ↔ d ≤ b * (p / 100)) := by
    intro d hd
    rw [abs_of_nonneg hd]
    constructor <;> intro h <;> linarith
  cases s with
  | bid =>
    -- the best bid is the highest
    have hle : q ≤ b := by
      rcases hle with h | h
      · simp only [F64.fin.injEq] at h
        exact h.ge
      · have hlt : F64.fin q < F64.fin b := Side.cmp_eq_lt.mp h
        exact (F64.fin_lt_fin.mp hlt).le
    rw [abs_sub_comm, hnear _ (by linarith)]
    show b * (1 - p / 100) ≤ q ↔ b - q ≤ b * (p / 100)
    constructor <;> intro h <;> linarith
  | ask =>
    have hle : b ≤ q := by
      rcases hle with h | h
      · simp only [F64.fin.injEq] at h
        exact h.le
      · have hlt : F64.fin b < F64.fin q := Side.cmp_eq_lt.mp h
        exact (F64.fin_lt_fin.mp hlt).le
    rw [hnear _ (by linarith)]
    show q ≤ b * (1 + p / 100) ↔ q - b ≤ b * (p / 100)
    constructor <;> intro h <;> linarith

/-- Where the best price comes first, the exact window of the filter is the percentage. -/
theorem nearFirst_eq_withinFirst {p : ℚ} {es : List (F64 × F64)} (hsorted : BestFirst s es)
    (hpos : ∀ e ∈ positiveEntries es, e.1.IsPos) :
    nearFirst .exact (.fin p) s es = withinFirst p (positiveEntries es) := by
  have hbest : BestFirst s (positiveEntries es) := hsorted.sublist List.filter_sublist
  show (positiveEntries es).filter (fun e => (positiveEntries es).head?.all fun first =>
    s.inWindow .exact (.fin p) first.1 e.1) = withinFirst p (positiveEntries es)
  cases hes : positiveEntries es with
  | nil => rfl
  | cons first rest =>
    rw [hes] at hbest hpos
    refine List.filter_congr fun e he => ?_
    rw [List.head?_cons, Option.all_some, Option.any_some]
    refine inWindow_eq_withinPercent (hpos first List.mem_cons_self) (hpos e he) ?_
    rcases List.mem_cons.mp he with rfl | he
    · exact Or.inl rfl
    · exact Or.inr (List.rel_of_pairwise_cons hbest he)

/-- A filter that passes more keeps more of the list, from the front. -/
theorem filter_prefix_filter {α : Type} {p q : α → Bool} {l : List α}
    (hmono : l.Pairwise fun a b => p b = true → p a = true)
    (hpq : ∀ a ∈ l, p a = true → q a = true) : l.filter p <+: l.filter q := by
  induction l with
  | nil => exact List.prefix_refl _
  | cons a l ih =>
    obtain ⟨ha, hl⟩ := List.pairwise_cons.mp hmono
    obtain ⟨hpqa, hpql⟩ := List.forall_mem_cons.mp hpq
    by_cases hp : p a = true
    · rw [List.filter_cons_of_pos hp, List.filter_cons_of_pos (hpqa hp)]
      exact List.cons_prefix_cons.mpr ⟨rfl, ih hl hpql⟩
    · -- what fails at the head fails everywhere
      have hnone : (a :: l).filter p = [] := by
        refine List.filter_eq_nil_iff.mpr (List.forall_mem_cons.mpr ⟨hp, fun b hb hpb => ?_⟩)
        exact hp (ha b hb hpb)
      rw [hnone]
      exact List.nil_prefix

/-- A wider window keeps more, from the best price on. -/
theorem nearFirst_widened {ar ar' : Arithmetic} {pct pct' : F64} {es : List (F64 × F64)}
    (hsorted : BestFirst s es) (hnum : ∀ e ∈ positiveEntries es, e.1 ≠ .nan)
    (hwider : ∀ first ∈ positiveEntries es, ∀ e ∈ positiveEntries es,
      s.inWindow ar pct first.1 e.1 = true → s.inWindow ar' pct' first.1 e.1 = true) :
    nearFirst ar pct s es <+: nearFirst ar' pct' s es := by
  have hbest : BestFirst s (positiveEntries es) := hsorted.sublist List.filter_sublist
  show (positiveEntries es).filter (fun e => (positiveEntries es).head?.all fun first =>
      s.inWindow ar pct first.1 e.1)
    <+: (positiveEntries es).filter fun e => (positiveEntries es).head?.all fun first =>
      s.inWindow ar' pct' first.1 e.1
  cases hes : positiveEntries es with
  | nil => exact List.prefix_refl _
  | cons first rest =>
    rw [hes] at hbest hnum hwider
    refine filter_prefix_filter ?_ (hwider first List.mem_cons_self)
    refine hbest.imp_of_mem fun ha _ hlt hin => ?_
    exact Side.inWindow_of_better (hnum _ ha) (by simp [hlt]) hin

/-- On doubles the window is the percentage, but for what is closer to the edge than the rounding
errors. -/
theorem nearFirst_double {p : ℚ} (h0 : 0 ≤ p) (h100 : p ≤ 100) {es : List (F64 × F64)}
    (hsorted : BestFirst s es) (hrange : ∀ e ∈ positiveEntries es, e.1.InRange) :
    withinFirst (p - Side.slack) (positiveEntries es) <+: nearFirst .double (.fin p) s es ∧
      nearFirst .double (.fin p) s es <+: withinFirst (p + Side.slack) (positiveEntries es) := by
  have hpos : ∀ e ∈ positiveEntries es, e.1.IsPos := fun e he => (hrange e he).isPos
  have hnum : ∀ e ∈ positiveEntries es, e.1 ≠ .nan := fun e he =>
    F64.ne_nan_of_gt_zero (hpos e he).gt_zero
  rw [← nearFirst_eq_withinFirst hsorted hpos, ← nearFirst_eq_withinFirst hsorted hpos]
  refine ⟨nearFirst_widened hsorted hnum fun first hfirst e he hin => ?_,
    nearFirst_widened hsorted hnum fun first hfirst e he hin => ?_⟩
  · obtain ⟨a, ha, hmin, hmax⟩ := F64.inRange_iff.mp (hrange first hfirst)
    obtain ⟨b, hb, -⟩ := F64.inRange_iff.mp (hrange e he)
    rw [ha, hb] at hin ⊢
    exact Side.inWindow_double_of_exact h0 h100 hmin hmax hin
  · obtain ⟨a, ha, hmin, hmax⟩ := F64.inRange_iff.mp (hrange first hfirst)
    obtain ⟨b, hb, hbmin, -⟩ := F64.inRange_iff.mp (hrange e he)
    rw [ha, hb] at hin ⊢
    exact Side.inWindow_exact_of_double h0 h100 hmin hmax (le_trans (by positivity) hbmin) hin

namespace Bitstamp

theorem filterMap_keptSnapshot_maxLevel (n : ℕ) (best : Option F64) (count : ℕ)
    (levels : List (String × String)) :
    (OrderBook.keptSnapshot (.maxLevel n) s best count levels).filterMap parseLevel
      = (positiveEntries (levels.filterMap parseLevel)).take (n - count) := by
  induction levels generalizing count with
  | nil => simp [OrderBook.keptSnapshot, positiveEntries]
  | cons l ls ih =>
    rw [OrderBook.keptSnapshot, List.filterMap_cons]
    cases hp : parseLevel l with
    | none => simpa using ih count
    | some e =>
      by_cases hpos : e.2.gt F64.zero = true
      · have hcons : positiveEntries (e :: ls.filterMap parseLevel)
            = e :: positiveEntries (ls.filterMap parseLevel) := by simp [positiveEntries, hpos]
        have hincl : (LobFilter.maxLevel n).shouldInclude best best e.1 e.2 (s = .bid) count false
            = decide (count < n) := by
          simp [LobFilter.shouldInclude_maxLevel, F64.eq_zero_of_gt_zero hpos]
        rw [hcons, Option.any_some, hpos, hincl, Bool.true_and]
        by_cases hroom : count < n
        · rw [if_pos (by simpa using hroom), List.filterMap_cons, hp, ih,
            show n - count = (n - (count + 1)) + 1 by omega, List.take_succ_cons]
        · -- once the count has reached `n` it stays there
          rw [if_neg (by simpa using hroom), ih, show n - count = 0 by omega, List.take_zero,
            List.take_zero]
      · have hskip : positiveEntries (e :: ls.filterMap parseLevel)
            = positiveEntries (ls.filterMap parseLevel) := by simp [positiveEntries, hpos]
        rw [hskip]
        simpa [hpos] using ih count

/-- What a snapshot stores under `MaxLevel`, in terms of its entries. -/
theorem snapshotOf_maxLevel (depth : ℕ) {msg : BitstampWsMessage} (hk : kindOf msg = .snapshot)
    (n : ℕ) (s : Side) :
    snapshotOf depth msg (some (.maxLevel n)) s
      = some ((positiveEntries (entries msg s)).take (min n depth)) := by
  obtain ⟨ob, hp⟩ := payload_of_snapshot hk
  rw [snapshotOf, entries, hp]
  simp only [Option.map_some, Option.getD_some]
  rw [filterMap_take depth fun l hl => parse_of_mem_keptSnapshot hl,
    filterMap_keptSnapshot_maxLevel, List.take_take, Nat.sub_zero, Nat.min_comm]

/-- A side after a snapshot that stores a part of a list with the best price first. -/
theorem toList_snapshot {msg : BitstampWsMessage} (hk : kindOf msg = .snapshot) {f : LobFilter}
    {b : OrderBook} {es : List (F64 × F64)} (hsorted : BestFirst s (entries msg s))
    (hsnap : snapshotOf b.snapshotDepth msg (some f) s = some es)
    (hpart : es.Sublist (positiveEntries (entries msg s))) :
    ((OrderBook.processMsg msg (some f) b).toOrderBook.side s).toList = es := by
  have hside : (OrderBook.processMsg msg (some f) b).toOrderBook.side s
      = replaceSide (b.toOrderBook.side s) (snapshotOf b.snapshotDepth msg (some f) s) :=
    (model b.snapshotDepth).side_snapshot msg (some f) ⟨b, rfl⟩ s hk
  rw [hside, hsnap]
  refine toList_replay_stores (hsorted.sublist (hpart.trans List.filter_sublist)) fun e he => ?_
  exact gt_zero_of_mem_positiveEntries (hpart.subset he)

/-- The tracked orders are gone, and each side lists what `kept` says. -/
structure Replaced (b : OrderBook) (kept : Side → List (F64 × F64)) : Prop where
  orders : b.orders = ∅
  sides : ∀ s, (b.toOrderBook.side s).toList = kept s

/-- **A filtered Bitstamp snapshot forgets the past.** When both lists come with the best price
first, the book forgets what it was. Under `MaxLevel` a side holds the first `min n d` positive
entries, where `d` is the snapshot depth. Under `MaxLevelPct` it holds the first `d` of the positive
entries that the filter finds in the window of the best one. These are the ones within `p` percent
of it, but for prices so close to the edge that rounding decides. -/
theorem filtered_snapshot_exact (msg : BitstampWsMessage) (hk : kindOf msg = .snapshot)
    (hsorted : ∀ s, BestFirst s (entries msg s)) (b : OrderBook) :
    (∀ n, Replaced (OrderBook.processMsg msg (some (.maxLevel n)) b) fun s =>
      (positiveEntries (entries msg s)).take (min n b.snapshotDepth)) ∧
    (∀ p : ℚ, Replaced (OrderBook.processMsg msg (some (.maxLevelPct (.fin p))) b) fun s =>
      (nearFirst .double (.fin p) s (entries msg s)).take b.snapshotDepth) ∧
    (∀ p : ℚ, 0 ≤ p → p ≤ 100 → ∀ s, (∀ e ∈ positiveEntries (entries msg s), e.1.InRange) →
      withinFirst (p - Side.slack) (positiveEntries (entries msg s))
          <+: nearFirst .double (.fin p) s (entries msg s) ∧
        nearFirst .double (.fin p) s (entries msg s)
          <+: withinFirst (p + Side.slack) (positiveEntries (entries msg s))) := by
  have horders : ∀ f, (OrderBook.processMsg msg (some f) b).orders = ∅ := by
    intro f
    rw [orders_processMsg (by rw [hk]; simp), if_pos hk]
  refine ⟨fun n => ?_, fun p => ?_, fun p h0 h100 s hrange => ?_⟩
  · exact ⟨horders _, fun s => toList_snapshot hk (hsorted s) (snapshotOf_maxLevel _ hk n s)
      (List.take_sublist _ _)⟩
  · exact ⟨horders _, fun s => toList_snapshot hk (hsorted s) (snapshotOf_maxLevelPct _ hk _ s)
      ((List.take_sublist _ _).trans List.filter_sublist)⟩
  · exact nearFirst_double h0 h100 (hsorted s) hrange

/-- A leading removal, one in between, and a bid far from the best. -/
def sortedBids : BitstampWsMessage :=
  bookMsg "snapshot" [("102", "0"), ("101", "1"), ("100", "0"), ("99", "2"), ("50", "3")] []

theorem filtered_snapshot_exact_sortedBids :
    (∀ n, Replaced (OrderBook.processMsg sortedBids (some (.maxLevel n))
        (OrderBook.withSnapshotDepth 400)) fun s =>
      (positiveEntries (entries sortedBids s)).take (min n 400)) ∧
    Replaced (OrderBook.processMsg sortedBids (some (.maxLevelPct (.fin 10)))
        (OrderBook.withSnapshotDepth 400)) (fun s =>
      (nearFirst .double (.fin 10) s (entries sortedBids s)).take 400) ∧
    withinFirst (10 - Side.slack) (positiveEntries (entries sortedBids .bid))
        <+: nearFirst .double (.fin 10) .bid (entries sortedBids .bid) ∧
      nearFirst .double (.fin 10) .bid (entries sortedBids .bid)
        <+: withinFirst (10 + Side.slack) (positiveEntries (entries sortedBids .bid)) := by
  have h := filtered_snapshot_exact sortedBids (kindOf_bookMsg_snapshot _ _)
    (by unfold BestFirst; decide +kernel) (OrderBook.withSnapshotDepth 400)
  exact ⟨h.1, h.2.1 10, h.2.2 10 (by norm_num) (by norm_num) .bid (by decide +kernel)⟩

/-- Two asks, the second exactly a tenth of a percent above the first. -/
def asksOnEdge : BitstampWsMessage := bookMsg "snapshot" [] [("60000", "1"), ("60060", "1")]

/-- On doubles the second ask is outside the window of the first. -/
theorem filtered_snapshot_misses_edge :
    ¬ ∀ msg : BitstampWsMessage, kindOf msg = .snapshot → (∀ s, BestFirst s (entries msg s)) →
      ∀ (b : OrderBook) (p : ℚ), 0 ≤ p → p ≤ 100 →
      (∀ s, ∀ e ∈ positiveEntries (entries msg s), e.1.IsPos) →
      Replaced (OrderBook.processMsg msg (some (.maxLevelPct (.fin p))) b) fun s =>
        (withinFirst p (positiveEntries (entries msg s))).take b.snapshotDepth := by
  intro h
  have hasks := (h asksOnEdge (kindOf_bookMsg_snapshot _ _) (by unfold BestFirst; decide +kernel)
    OrderBook.new (1 / 10) (by norm_num) (by norm_num) (by decide +kernel)).sides .ask
  exact absurd hasks (by decide +kernel)

end Bitstamp

end Cryptomeria
