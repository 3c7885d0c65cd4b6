import Cryptomeria.Filter.Subset

/-!
# The percentage window

`MaxLevelPct` tests a level once, when it comes in, against the best price of that moment. Levels
that are on the side are not looked at again. So a book leaves its window when a message improves
the best price while a level stays behind, and in no other way: `maxLevelPct_window_iff`.

The window of a worse price is wider, which is why removals do no harm. That is so in exact
arithmetic and on doubles, and everything here is for both.
-/

set_option autoImplicit false

namespace Cryptomeria

open WriteLog

variable {s : Side} {p : ℚ} {ar : Arithmetic}

namespace Side

theorem beats_iff {a b : F64} (ha : a ≠ .nan) (hb : b ≠ .nan) :
    s.beats a b = true ↔ s.cmp a b = .lt := by
  rw [cmp_eq_lt]
  cases s <;> simp [beats, F64.gt, F64.lt, ha, hb]

end Side

/-! ## The window of a side -/

/-- No level of the side is outside the window of its best price. -/
def Levels.InWindow (ar : Arithmetic) (pct : F64) (m : Levels s) : Prop :=
  ∀ best, m.best = some best → ∀ r ∈ m, s.inWindow ar pct best r = true

/-- Then every price of the side sees every other one. -/
theorem Levels.inWindow_iff (h0 : 0 ≤ p) (h100 : p ≤ 100) {m : Levels s}
    (hpos : ∀ q ∈ m, q.IsPos) :
    m.InWindow ar (.fin p) ↔ ∀ q ∈ m, ∀ r ∈ m, s.inWindow ar (.fin p) q r = true := by
  constructor
  · intro h q hq r hr
    obtain ⟨best, hbest⟩ := Levels.exists_best hq
    have hmem := Levels.best_mem hbest
    exact Side.inWindow_of_isLE h0 h100 (hpos best hmem).gt_zero (hpos q hq).gt_zero
      (Levels.best_le hbest hq) (h best hbest r hr)
  · intro h best hbest r hr
    exact h best (Levels.best_mem hbest) r hr

/-! ## Updates -/

/-- `q` is better than every price held; any price is better than none. -/
def Improves (m : Levels s) (q : F64) : Prop := ∀ r ∈ m, s.cmp q r = .lt

/-- No price that an update stores improves on the side and leaves behind, outside its window, a
price that stays or one that the update stores as well. -/
def UpdateInWindow (grow : Bool) (ar : Arithmetic) (pct : F64) (m : Levels s)
    (es : List (F64 × F64)) : Prop :=
  ∀ q, Offered grow (.maxLevelPct pct ar) m es q → Improves m q →
    ∀ r, Kept m es r ∨ Offered grow (.maxLevelPct pct ar) m es r → s.inWindow ar pct q r = true

theorem Offered.mem {grow : Bool} {f : LobFilter} {m : Levels s} {es : List (F64 × F64)} {r : F64}
    (h : Offered grow f m es r) : ∃ e ∈ es, e.1 = r := by
  obtain ⟨pre, e, post, rfl, hr, -⟩ := h
  exact ⟨e, by simp, hr⟩

/-- What passes is in the window of the best price before the update. -/
theorem Offered.inWindow {grow : Bool} {pct : F64} {m : Levels s} {es : List (F64 × F64)}
    {r best : F64} (h : Offered grow (.maxLevelPct pct ar) m es r) (hbest : m.best = some best) :
    s.inWindow ar pct best r = true := by
  obtain ⟨pre, e, post, rfl, rfl, hnz, hpass, -⟩ := h
  by_contra hwin
  have hout : admits (.maxLevelPct pct ar) m 0 e = false :=
    BookModel.admits_maxLevelPct_eq_false.mpr ⟨hnz, best, hbest, Bool.eq_false_iff.mpr hwin⟩
  rw [passes, admits_maxLevelPct_congr _ 0, hout] at hpass
  simp at hpass

theorem window_update_iff (h0 : 0 ≤ p) (h100 : p ≤ 100) {grow : Bool} {m : Levels s}
    {es : List (F64 × F64)} (hm : ∀ q ∈ m, q.IsPos) (hes : ∀ e ∈ es, e.1.IsPos)
    (hwin : m.InWindow ar (.fin p)) :
    Levels.InWindow ar (.fin p)
        (replay m (writes (admitted grow (.maxLevelPct (.fin p) ar) m 0 es))) ↔
      UpdateInWindow grow ar (.fin p) m es := by
  have hpos : ∀ q, Kept m es q ∨ Offered grow (.maxLevelPct (.fin p) ar) m es q → q.IsPos := by
    rintro q (hkept | hoffered)
    · exact hm q hkept.1
    · obtain ⟨e, he, rfl⟩ := hoffered.mem
      exact hes e he
  rw [Levels.inWindow_iff h0 h100 fun q hq => hpos q (mem_replay_admitted.mp hq)]
  simp only [mem_replay_admitted]
  constructor
  · intro h q hq _ r hr
    exact h q (Or.inr hq) r hr
  · intro h q hq r hr
    by_cases himp : Improves m q
    · -- `q` is new, since no price improves on itself
      have hnew : ¬ Kept m es q := by
        intro hkept
        have hself := himp q hkept.1
        simp [Std.ReflCmp.compare_self] at hself
      exact h q (hq.resolve_left hnew) himp r hr
    · -- the window of `q` contains that of the old best price
      obtain ⟨held, hheld, hnot⟩ : ∃ held ∈ m, s.cmp q held ≠ .lt := by
        simpa [Improves] using himp
      obtain ⟨best, hbest⟩ := Levels.exists_best hheld
      have hbestPos := hm best (Levels.best_mem hbest)
      have hle : (s.cmp best q).isLE :=
        Std.TransCmp.isLE_trans (Levels.best_le hbest hheld) (Side.isLE_cmp_of_not_lt hnot)
      have hseen : s.inWindow ar (.fin p) best r = true := by
        rcases hr with hkept | hoffered
        · exact hwin best hbest r hkept.1
        · exact hoffered.inWindow hbest
      exact Side.inWindow_of_isLE h0 h100 hbestPos.gt_zero (hpos q hq).gt_zero hle hseen

/-! ## Snapshots -/

/-- The positive levels of a list see each other. -/
def Tight (ar : Arithmetic) (pct : F64) (s : Side) (es : List (F64 × F64)) : Prop :=
  ∀ e ∈ es, e.2.gt F64.zero = true → ∀ e' ∈ es, e'.2.gt F64.zero = true →
    s.inWindow ar pct e.1 e'.1 = true

theorem mem_replay_stores {es : List (F64 × F64)} {r : F64} :
    r ∈ replay (∅ : Levels s) (stores es) ↔ ∃ e ∈ es, e.2.gt F64.zero = true ∧ e.1 = r := by
  have hmem : ∀ o, (r, o) ∈ stores es ↔
      ∃ e ∈ es, e.2.gt F64.zero = true ∧ e.1 = r ∧ some e.2 = o := by
    intro o
    simp only [stores, List.mem_map, List.mem_filter, Prod.mk.injEq, and_assoc]
  rw [mem_replay_iff]
  constructor
  · rintro (⟨v, hv⟩ | ⟨-, hempty⟩)
    · obtain ⟨e, he, hpos, hr, -⟩ := (hmem _).mp (mem_of_last_eq_some hv)
      exact ⟨e, he, hpos, hr⟩
    · simp at hempty
  · rintro ⟨e, he, hpos, hr⟩
    left
    cases hl : last (stores es) r with
    | none => exact absurd rfl (last_eq_none_iff.mp hl _ ((hmem _).mpr ⟨e, he, hpos, hr, rfl⟩))
    | some o =>
      obtain ⟨e', -, -, -, rfl⟩ := (hmem o).mp (mem_of_last_eq_some hl)
      exact ⟨e'.2, rfl⟩

theorem window_snapshot_iff (h0 : 0 ≤ p) (h100 : p ≤ 100) {es : List (F64 × F64)}
    (hes : ∀ e ∈ es, e.1.IsPos) :
    Levels.InWindow ar (.fin p) (replay (∅ : Levels s) (stores es)) ↔ Tight ar (.fin p) s es := by
  rw [Levels.inWindow_iff h0 h100]
  · simp only [mem_replay_stores]
    constructor
    · intro h e he hpos e' he' hpos'
      exact h e.1 ⟨e, he, hpos, rfl⟩ e'.1 ⟨e', he', hpos', rfl⟩
    · rintro h _ ⟨e, he, hpos, rfl⟩ _ ⟨e', he', hpos', rfl⟩
      exact h e he hpos e' he' hpos'
  · intro q hq
    obtain ⟨e, he, -, rfl⟩ := mem_replay_stores.mp hq
    exact hes e he

namespace Lob

variable {L : Type} {view parse : L → Option (F64 × F64)}

/-- No readable level of a batch is better than the best price found in it. -/
theorem findBestPrice_isLE_loop (s : Side) (levels : List L) (best : Option F64)
    (hlevels : ∀ l ∈ levels, ∀ e, view l = some e → e.1.gt F64.zero = true)
    (hbest : ∀ b ∈ best, b.gt F64.zero = true) :
    ∀ q, levels.foldl (betterOf view s) best = some q →
      (∀ b ∈ best, (s.cmp q b).isLE) ∧ ∀ l ∈ levels, ∀ e, view l = some e → (s.cmp q e.1).isLE := by
  induction levels generalizing best with
  | nil =>
    intro q hq
    refine ⟨?_, by simp⟩
    intro b hb
    rw [List.foldl_nil, Option.mem_def.mp hb] at hq
    obtain rfl := Option.some.inj hq
    simp [Std.ReflCmp.compare_self]
  | cons l ls ih =>
    intro q hq
    obtain ⟨hl, hls⟩ := List.forall_mem_cons.mp hlevels
    rw [List.foldl_cons] at hq
    rcases @betterOf_cases _ view s best l with
      ⟨hv, hr⟩ | ⟨e, hv, hb, hr⟩ | ⟨e, b, hv, rfl, hb, hr⟩
    · rw [hr] at hq
      obtain ⟨hfirst, hrest⟩ := ih best hls hbest q hq
      exact ⟨hfirst, List.forall_mem_cons.mpr ⟨by simp [hv], hrest⟩⟩
    · have hprice := hl e hv
      rw [hr] at hq
      obtain ⟨hfirst, hrest⟩ := ih (some e.1) hls (by simpa using hprice) q hq
      have hle : (s.cmp q e.1).isLE := hfirst e.1 rfl
      refine ⟨fun b hmem => ?_, List.forall_mem_cons.mpr ⟨by simpa [hv] using hle, hrest⟩⟩
      have hlt : s.cmp e.1 b = .lt :=
        (Side.beats_iff (F64.ne_nan_of_gt_zero hprice)
          (F64.ne_nan_of_gt_zero (hbest b hmem))).mp (hb b hmem)
      exact Std.TransCmp.isLE_trans hle (by simp [hlt])
    · -- the price that was not taken is no better than the one before it
      have hnot : s.cmp e.1 b ≠ .lt := by
        rw [ne_eq, ← Side.beats_iff (F64.ne_nan_of_gt_zero (hl e hv))
          (F64.ne_nan_of_gt_zero (hbest b rfl)), hb]
        simp
      rw [hr] at hq
      obtain ⟨hfirst, hrest⟩ := ih (some b) hls hbest q hq
      refine ⟨hfirst, List.forall_mem_cons.mpr ⟨?_, hrest⟩⟩
      have hle := Side.isLE_cmp_of_not_lt hnot
      simpa [hv] using Std.TransCmp.isLE_trans (hfirst b rfl) hle

theorem findBestPrice_isLE {s : Side} {levels : List L} {best : F64}
    (hlevels : ∀ l ∈ levels, ∀ e, view l = some e → e.1.gt F64.zero = true)
    (hbest : findBestPrice view levels s = some best) :
    ∀ l ∈ levels, ∀ e, view l = some e → (s.cmp best e.1).isLE :=
  (findBestPrice_isLE_loop s levels none hlevels (by simp) best hbest).2

/-- The positive levels that the filter leaves of a snapshot are in the window of the best price
of the batch, which is at least as good as each of them. -/
theorem tight_filterSnapshotLevels (h0 : 0 ≤ p) (h100 : p ≤ 100) {levels : List L} (b : OrderBook)
    (s : Side) (hread : ∀ l ∈ levels, view l = parse l)
    (hpos : ∀ e ∈ levels.filterMap parse, e.1.IsPos) :
    Tight ar (.fin p) s ((filterSnapshotLevels view b levels s (.maxLevelPct (.fin p) ar)
      (findBestPrice view levels s)).filterMap parse) := by
  have hlevels : ∀ l ∈ levels, ∀ e, view l = some e → e.1.gt F64.zero = true := by
    intro l hl e he
    apply F64.IsPos.gt_zero
    apply hpos
    exact List.mem_filterMap.mpr ⟨l, hl, (hread l hl).symm.trans he⟩
  have hkept : ∀ e ∈ (filterSnapshotLevels view b levels s (.maxLevelPct (.fin p) ar)
      (findBestPrice view levels s)).filterMap parse, e.2.gt F64.zero = true →
      ∃ best, findBestPrice view levels s = some best ∧ s.inWindow ar (.fin p) best e.1 = true ∧
        ∃ l ∈ levels, view l = some e := by
    intro e he hsize
    obtain ⟨l, hl, hparse⟩ := List.mem_filterMap.mp he
    obtain ⟨hmem, hin⟩ := List.mem_filter.mp hl
    have hview : view l = some e := (hread l hmem).trans hparse
    have hnz := F64.eq_zero_of_gt_zero hsize
    cases hbest : findBestPrice view levels s with
    | none =>
      have hnone := view_none_of_findBestPrice hbest l hmem
      rw [hview] at hnone
      simp at hnone
    | some best =>
      refine ⟨best, rfl, ?_, l, hmem, hview⟩
      rw [hview, hbest] at hin
      cases s <;>
        simpa [LobFilter.shouldInclude, hnz, Side.inWindow, Side.within, Side.threshold] using hin
  intro e he hsize e' he' hsize'
  obtain ⟨best, hbest, -, l, hl, hview⟩ := hkept e he hsize
  obtain ⟨best', hbest', hwin, l', hl', hview'⟩ := hkept e' he' hsize'
  obtain rfl : best = best' := Option.some.inj (hbest.symm.trans hbest')
  obtain ⟨l₀, hl₀, a₀, hview₀⟩ := exists_of_findBestPrice hbest
  exact Side.inWindow_of_isLE h0 h100 (hlevels l₀ hl₀ _ hview₀) (hlevels l hl e hview)
    (findBestPrice_isLE hlevels hbest l hl e hview) hwin

/-- A snapshot of OKX or Kraken stays in its window by itself. -/
theorem tight_snapshotLevels (h0 : 0 ≤ p) (h100 : p ≤ 100) {levels : List L} {s : Side}
    {es : List (F64 × F64)} (hread : ∀ l ∈ levels, view l = parse l)
    (hpos : ∀ e ∈ levels.filterMap parse, e.1.IsPos)
    (hes : snapshotLevels view parse (some (.maxLevelPct (.fin p) ar)) s levels = some es) :
    Tight ar (.fin p) s es := by
  rw [snapshotLevels_eq_some hes]
  exact tight_filterSnapshotLevels h0 h100 _ s hread hpos

end Lob

/-- The positive levels in the window of the first positive one. -/
def nearFirst (ar : Arithmetic) (pct : F64) (s : Side) (es : List (F64 × F64)) :
    List (F64 × F64) :=
  let positive := es.filter fun e => e.2.gt F64.zero
  positive.filter fun e => positive.head?.all fun first => s.inWindow ar pct first.1 e.1

namespace Bitstamp

theorem firstPositive_eq (levels : List (String × String)) :
    OrderBook.firstPositive levels
      = ((levels.filterMap parseLevel).filter fun e => e.2.gt F64.zero).head?.map Prod.fst := by
  induction levels with
  | nil => rfl
  | cons l ls ih =>
    rw [OrderBook.firstPositive] at ih ⊢
    rw [List.findSome?_cons, List.filterMap_cons]
    cases hp : parseLevel l with
    | none => exact ih
    | some e =>
      by_cases hpos : e.2.gt F64.zero = true
      · simp [hpos]
      · simpa [hpos] using ih

theorem parse_of_mem_keptSnapshot {f : LobFilter} {best : Option F64} {count : ℕ}
    {levels : List (String × String)} {l : String × String}
    (h : l ∈ OrderBook.keptSnapshot f s best count levels) : (parseLevel l).isSome := by
  induction levels generalizing count with
  | nil => simp [OrderBook.keptSnapshot] at h
  | cons l' ls ih =>
    rw [OrderBook.keptSnapshot] at h
    split at h
    · rename_i hin
      rcases List.mem_cons.mp h with rfl | h
      · cases hp : parseLevel l with
        | none => simp [hp] at hin
        | some e => rfl
      · exact ih h
    · exact ih h

theorem filterMap_keptSnapshot (best : Option F64) (pct : F64) (count : ℕ)
    (levels : List (String × String)) :
    (OrderBook.keptSnapshot (.maxLevelPct pct ar) s best count levels).filterMap parseLevel
      = ((levels.filterMap parseLevel).filter fun e => e.2.gt F64.zero).filter fun e =>
          best.all fun b => s.inWindow ar pct b e.1 := by
  induction levels generalizing count with
  | nil => rfl
  | cons l ls ih =>
    rw [OrderBook.keptSnapshot, List.filterMap_cons]
    cases hp : parseLevel l with
    | none => simpa using ih count
    | some e =>
      by_cases hpos : e.2.gt F64.zero = true
      · have hincl : (LobFilter.maxLevelPct pct ar).shouldInclude best best e.1 e.2 (s = .bid)
            count false = best.all fun b => s.inWindow ar pct b e.1 := by
          cases best <;> cases s <;>
            simp [LobFilter.shouldInclude, F64.eq_zero_of_gt_zero hpos, Side.inWindow, Side.within,
              Side.threshold]
        by_cases hin : (best.all fun b => s.inWindow ar pct b e.1) = true
        · simp [hpos, hincl, hin, hp, ih]
        · simp [hpos, hincl, hin, ih]
      · simpa [hpos] using ih count

theorem filterMap_take {α β : Type} {f : α → Option β} {ls : List α} (n : ℕ)
    (h : ∀ l ∈ ls, (f l).isSome) : (ls.take n).filterMap f = (ls.filterMap f).take n := by
  induction ls generalizing n with
  | nil => simp
  | cons l ls ih =>
    obtain ⟨hl, hls⟩ := List.forall_mem_cons.mp h
    obtain ⟨e, he⟩ := Option.isSome_iff_exists.mp hl
    cases n with
    | zero => simp
    | succ n => simp [he, ih n hls]

/-- What a snapshot stores under `MaxLevelPct`, in terms of its entries. -/
theorem snapshotOf_maxLevelPct (depth : ℕ) {msg : BitstampWsMessage} (hk : kindOf msg = .snapshot)
    (pct : F64) (s : Side) :
    snapshotOf depth msg (some (.maxLevelPct pct ar)) s
      = some ((nearFirst ar pct s (entries msg s)).take depth) := by
  obtain ⟨ob, hp⟩ := payload_of_snapshot hk
  rw [snapshotOf, entries, hp]
  simp only [Option.map_some, Option.getD_some]
  rw [filterMap_take depth fun l hl => parse_of_mem_keptSnapshot hl, filterMap_keptSnapshot,
    firstPositive_eq, nearFirst]
  simp only [Option.all_map]

end Bitstamp

/-! ## Runs -/

/-- The levels that a snapshot stores see each other. Those of OKX and Kraken always do; Bitstamp
measures with the first positive level of the list, which need not be the best one. -/
def Exchange.SnapshotInWindow (ar : Arithmetic) (pct : F64) : (x : Exchange) → x.model.Msg → Prop
  | .okx, _ => True
  | .kraken, _ => True
  | .bitstamp depth, msg =>
    ∀ s, Tight ar pct s ((nearFirst ar pct s (Bitstamp.entries msg s)).take depth)

theorem Exchange.tight_snapshot_iff (h0 : 0 ≤ p) (h100 : p ≤ 100) (x : Exchange)
    {msg : x.model.Msg} (hk : x.model.kind msg = .snapshot) (hpos : x.model.PricesPositive msg) :
    (∀ s es, x.model.snapshot msg (some (.maxLevelPct (.fin p) ar)) s = some es →
      Tight ar (.fin p) s es) ↔ x.SnapshotInWindow ar (.fin p) msg := by
  cases x with
  | okx =>
    refine iff_of_true (fun s es hes => ?_) trivial
    exact Lob.tight_snapshotLevels h0 h100 (fun _ _ => rfl) (hpos s) hes
  | kraken =>
    refine iff_of_true (fun s es hes => ?_) trivial
    refine Lob.tight_snapshotLevels h0 h100 (fun l hl => ?_) (hpos s) hes
    obtain ⟨d, hd⟩ := Lob.mem_levelsOf hl
    exact (Kraken.parseLevel_of_mem_parseLevels hd).symm
  | bitstamp depth =>
    have hsnap := @Bitstamp.snapshotOf_maxLevelPct ar depth _ hk (.fin p)
    constructor
    · intro h s
      exact h s _ (hsnap s)
    · intro h s es hes
      obtain rfl := Option.some.inj ((hsnap s).symm.trans hes)
      exact h s

namespace BookModel

variable {x : BookModel}

/-- No level of the book is outside the window of the best price of its side. -/
def InWindow (x : BookModel) (ar : Arithmetic) (pct : F64) (b : x.Book) : Prop :=
  ∀ s, (x.side b s).InWindow ar pct

/-- All prices held are positive numbers. -/
def HeldPositive (x : BookModel) (b : x.Book) : Prop := ∀ s, ∀ q ∈ x.side b s, q.IsPos

/-- The condition on one message. -/
def MsgInWindow (x : BookModel) (ar : Arithmetic) (pct : F64) (snapshotInWindow : x.Msg → Prop)
    (b : x.Book) (msg : x.Msg) : Prop :=
  (x.kind msg = .update → ∀ s, UpdateInWindow x.grow ar pct (x.side b s) (x.entries msg s)) ∧
    (x.kind msg = .snapshot → snapshotInWindow msg)

variable {b : x.Book} {msg : x.Msg}

theorem heldPositive_step (hb : x.HeldPositive b) (hpos : x.PricesPositive msg)
    (hk : x.kind msg ≠ .order) (f : LobFilter) :
    x.HeldPositive (x.processMsg msg (some f) b) := by
  intro s q hq
  cases hkind : x.kind msg with
  | snapshot =>
    rw [x.side_snapshot _ _ _ _ hkind] at hq
    cases hes : x.snapshot msg (some f) s with
    | none =>
      rw [hes] at hq
      exact hb s q hq
    | some es =>
      rw [hes] at hq
      obtain ⟨e, he, -, rfl⟩ := mem_replay_stores.mp hq
      exact hpos s e (x.snapshot_subset msg f s es hkind hes he)
  | update =>
    rw [x.side_update _ _ _ _ hkind] at hq
    rcases mem_replay_admitted.mp hq with hkept | hoffered
    · exact hb s q hkept.1
    · obtain ⟨e, he, rfl⟩ := hoffered.mem
      exact hpos s e he
  | order => exact absurd hkind hk
  | idle =>
    rw [x.side_idle _ _ _ _ hkind] at hq
    exact hb s q hq

theorem inWindow_step_iff (h0 : 0 ≤ p) (h100 : p ≤ 100) {snapshotInWindow : x.Msg → Prop}
    (hsnap : x.kind msg = .snapshot →
      ((∀ s es, x.snapshot msg (some (.maxLevelPct (.fin p) ar)) s = some es →
        Tight ar (.fin p) s es) ↔ snapshotInWindow msg))
    (hheld : x.HeldPositive b) (hb : x.InWindow ar (.fin p) b) (hpos : x.PricesPositive msg)
    (hk : x.kind msg ≠ .order) :
    x.InWindow ar (.fin p) (x.processMsg msg (some (.maxLevelPct (.fin p) ar)) b) ↔
      x.MsgInWindow ar (.fin p) snapshotInWindow b msg := by
  cases hkind : x.kind msg with
  | snapshot =>
    simp only [MsgInWindow, hkind, reduceCtorEq, false_implies, true_and, true_implies,
      ← hsnap hkind]
    refine forall_congr' fun s => ?_
    rw [x.side_snapshot _ _ _ _ hkind]
    cases hes : x.snapshot msg (some (.maxLevelPct (.fin p) ar)) s with
    | none => exact iff_of_true (hb s) fun es h => by simp at h
    | some es =>
      have hlisted : ∀ e ∈ es, e.1.IsPos := fun e he =>
        hpos s e (x.snapshot_subset msg _ s es hkind hes he)
      simpa [replaceSide] using window_snapshot_iff h0 h100 hlisted
  | update =>
    simp only [MsgInWindow, hkind, reduceCtorEq, false_implies, and_true, true_implies]
    refine forall_congr' fun s => ?_
    rw [x.side_update _ _ _ _ hkind]
    exact window_update_iff h0 h100 (hheld s) (hpos s) (hb s)
  | order => exact absurd hkind hk
  | idle =>
    refine iff_of_true (fun s => ?_) (by simp [MsgInWindow, hkind])
    rw [x.side_idle _ _ _ _ hkind]
    exact hb s

end BookModel

/-- **When a filtered book stays in its percentage window.** In every run of snapshots and updates
with positive prices, all levels are within `p` percent of the best price of their side after
every message if and only if every update that improves a best price leaves no level behind, and
every Bitstamp snapshot lists its levels in each other's window. Both the filter and the claim can
be in exact arithmetic or on doubles. -/
theorem Exchange.maxLevelPct_window_iff (x : Exchange) (ar : Arithmetic) (p : ℚ) (h0 : 0 ≤ p)
    (h100 : p ≤ 100) (msgs : List x.model.Msg)
    (hmsgs : ∀ msg ∈ msgs, x.model.PricesPositive msg ∧ x.model.kind msg ≠ .order) :
    Trace.Always (fun b msg => x.model.processMsg msg (some (.maxLevelPct (.fin p) ar)) b)
        (x.model.InWindow ar (.fin p)) x.model.new msgs ↔
      Trace.EachStep (fun b msg => x.model.processMsg msg (some (.maxLevelPct (.fin p) ar)) b)
        (x.model.MsgInWindow ar (.fin p) (x.SnapshotInWindow ar (.fin p))) x.model.new msgs := by
  have hempty : x.model.HeldPositive x.model.new := by
    intro s q hq
    simp [x.model.side_new s] at hq
  have hstart : x.model.InWindow ar (.fin p) x.model.new := by
    intro s best hbest r hr
    simp [x.model.side_new s] at hr
  refine Trace.always_iff_eachStep (I := x.model.HeldPositive) hempty hstart hmsgs ?_ ?_
  · intro b msg hheld _ hmsg
    exact BookModel.heldPositive_step hheld hmsg.1 hmsg.2 _
  · intro b msg hheld hb hmsg
    exact BookModel.inWindow_step_iff h0 h100 (fun hk => x.tight_snapshot_iff h0 h100 hk hmsg.1)
      hheld hb hmsg.1 hmsg.2

/-- A bid at 100, then one at 102, whose window of one percent ends at 100.98. -/
def leftBehind : List Exchange.okx.model.Msg :=
  [Okx.booksMsg "snapshot" [("100", "1")] [], Okx.booksMsg "update" [("102", "1")] []]

theorem Exchange.maxLevelPct_window_iff_leftBehind :
    Trace.Always
        (fun b msg => Exchange.okx.model.processMsg msg (some (.maxLevelPct (.fin 1) .exact)) b)
        (Exchange.okx.model.InWindow .exact (.fin 1)) Exchange.okx.model.new leftBehind ↔
      Trace.EachStep
        (fun b msg => Exchange.okx.model.processMsg msg (some (.maxLevelPct (.fin 1) .exact)) b)
        (Exchange.okx.model.MsgInWindow .exact (.fin 1)
          (Exchange.okx.SnapshotInWindow .exact (.fin 1)))
        Exchange.okx.model.new leftBehind :=
  Exchange.maxLevelPct_window_iff .okx .exact 1 (by norm_num) (by norm_num) leftBehind
    (by decide +kernel)

theorem Exchange.maxLevelPct_left_behind :
    ¬ ∀ (x : Exchange) (p : ℚ), 0 ≤ p → p ≤ 100 → ∀ msgs : List x.model.Msg,
      (∀ msg ∈ msgs, x.model.PricesPositive msg ∧ x.model.kind msg ≠ .order) →
      Trace.Always (fun b msg => x.model.processMsg msg (some (.maxLevelPct (.fin p) .exact)) b)
        (x.model.InWindow .exact (.fin p)) x.model.new msgs := by
  intro h
  have hrun := h .okx 1 (by norm_num) (by norm_num) leftBehind (by decide +kernel)
  have hbid := hrun.last .bid (.fin 102) (by decide +kernel) (.fin 100) (by decide +kernel)
  exact absurd hbid (by decide +kernel)

end Cryptomeria
