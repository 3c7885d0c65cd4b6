import Cryptomeria.Filter.Subset
import Cryptomeria.Filter.Window
import Cryptomeria.Lob.Positive

/-!
# What a filtered book promises

A book with fewer levels can only err on one side, if prices and sizes are positive: its best
prices are no better than the real ones, its spread no narrower, its totals no larger. With
`MaxLevel` that is so after every message of a run (`maxLevel_conservative`), whatever levels the
filter has left out by then.
-/

set_option autoImplicit false

namespace Cryptomeria

open WriteLog

/-! ## Sums -/

namespace F64

variable {a b y : F64}

theorem ge_zero_cases (h : a.ge zero = true) : a = posInf ∨ ∃ q, a = fin q ∧ 0 ≤ q := by
  rcases ge_zero_iff.mp h with rfl | hpos
  · exact Or.inr ⟨0, rfl, le_refl 0⟩
  · rcases gt_zero_iff.mp hpos with rfl | ⟨q, rfl, hq⟩
    · exact Or.inl rfl
    · exact Or.inr ⟨q, rfl, hq.le⟩

theorem ge_zero_of_le (ha : a.ge zero = true) (hab : a.le b = true) : b.ge zero = true := by
  simp only [ge, le, Bool.and_eq_true, decide_eq_true_eq] at ha hab ⊢
  exact ⟨⟨ha.1.1, hab.1.2⟩, ha.2.trans hab.2⟩

theorem add_ge_zero (ha : a.ge zero = true) (hb : b.ge zero = true) :
    (a.add b).ge zero = true := by
  rcases ge_zero_cases ha with rfl | ⟨p, rfl, hp⟩ <;>
    rcases ge_zero_cases hb with rfl | ⟨q, rfl, hq⟩
  any_goals rfl
  simp only [add_fin, zero, ge_fin, decide_eq_true_eq]
  exact add_nonneg hp hq

theorem le_posInf_of_nonneg (ha : a.ge zero = true) : a.le posInf = true := by
  rcases ge_zero_cases ha with rfl | ⟨p, rfl, -⟩
  · rfl
  · rfl

/-- One more term on the right. -/
theorem le_add (ha : a.ge zero = true) (hab : a.le b = true) (hy : y.ge zero = true) :
    a.le (b.add y) = true := by
  rcases ge_zero_cases (ge_zero_of_le ha hab) with rfl | ⟨q, rfl, -⟩
  · rcases ge_zero_cases hy with rfl | ⟨r, rfl, -⟩
    · exact hab
    · exact hab
  · rcases ge_zero_cases hy with rfl | ⟨r, rfl, hr⟩
    · exact le_posInf_of_nonneg ha
    · rcases ge_zero_cases ha with rfl | ⟨p, rfl, -⟩
      · exact absurd hab (by simp [le, not_posInf_le_fin])
      · simp only [le_fin, decide_eq_true_eq, add_fin] at hab ⊢
        linarith

/-- One more term on both sides. -/
theorem add_le_add (ha : a.ge zero = true) (hab : a.le b = true) (hy : y.ge zero = true) :
    (a.add y).le (b.add y) = true := by
  rcases ge_zero_cases hy with rfl | ⟨r, rfl, -⟩
  · have hinf : b.add posInf = posInf := by
      rcases ge_zero_cases (ge_zero_of_le ha hab) with rfl | ⟨q, rfl, -⟩
      · rfl
      · rfl
    rw [hinf]
    exact le_posInf_of_nonneg (add_ge_zero ha hy)
  · rcases ge_zero_cases (ge_zero_of_le ha hab) with rfl | ⟨q, rfl, -⟩
    · exact le_posInf_of_nonneg (add_ge_zero ha hy)
    · rcases ge_zero_cases ha with rfl | ⟨p, rfl, -⟩
      · exact absurd hab (by simp [le, not_posInf_le_fin])
      · simp only [le_fin, decide_eq_true_eq, add_fin] at hab ⊢
        linarith

/-- Leaving out terms makes a sum of sizes no larger. -/
theorem sum_le_of_sublist {xs ys : List F64} (h : xs.Sublist ys)
    (hys : ∀ y ∈ ys, y.ge zero = true) : (sum xs).le (sum ys) = true := by
  have hfold : ∀ a b : F64, a.ge zero = true → a.le b = true →
      (xs.foldl add a).le (ys.foldl add b) = true := by
    induction h with
    | slnil => exact fun _ _ _ hab => hab
    | cons y _ ih =>
      intro a b ha hab
      obtain ⟨hy, hys⟩ := List.forall_mem_cons.mp hys
      exact ih hys a (b.add y) ha (le_add ha hab hy)
    | cons_cons y _ ih =>
      intro a b ha hab
      obtain ⟨hy, hys⟩ := List.forall_mem_cons.mp hys
      exact ih hys (a.add y) (b.add y) (add_ge_zero ha hy) (add_le_add ha hab hy)
  exact hfold zero zero (by decide) (by decide)

end F64

/-! ## One side -/

section Levels

variable {s : Side} {m full : Levels s}

/-- The listing of a part of a side is a part of its listing. -/
theorem Levels.sublist_of_included (h : Included m full) : m.toList.Sublist full.toList := by
  have hsorted := full.pairwise_toList
  have hfiltered : m.toList = full.toList.filter fun e => decide (m[e.1]? = some e.2) := by
    refine toList_eq_of_pairwise (hsorted.filter _) fun k v => ?_
    rw [List.mem_filter, Std.ExtTreeMap.mem_toList_iff_getElem?_eq_some, decide_eq_true_eq]
    exact ⟨fun hm => ⟨h k v hm, hm⟩, fun hm => hm.2⟩
  rw [hfiltered]
  exact List.filter_sublist

theorem Levels.size_le_of_included (h : Included m full) : m.size ≤ full.size := by
  have hlength := (Levels.sublist_of_included h).length_le
  rwa [Std.ExtTreeMap.length_toList, Std.ExtTreeMap.length_toList] at hlength

theorem Levels.mem_of_included (h : Included m full) {p : F64} (hp : p ∈ m) : p ∈ full := by
  rw [Std.ExtTreeMap.mem_iff_isSome_getElem?, Option.isSome_iff_exists] at hp ⊢
  obtain ⟨v, hv⟩ := hp
  exact ⟨v, h p v hv⟩

theorem Levels.best_of_included (h : Included m full) {p : F64} (hp : m.best = some p) :
    p ∈ full ∧ ∃ q, full.best = some q ∧ (s.cmp q p).isLE := by
  have hheld := Levels.mem_of_included h (Levels.best_mem hp)
  obtain ⟨q, hq⟩ := Levels.exists_best hheld
  exact ⟨hheld, q, hq, Levels.best_le hq hheld⟩

theorem Levels.total_le_of_included (h : Included m full) (hpos : full.Positive) :
    (F64.sum (m.toList.map Prod.snd)).le (F64.sum (full.toList.map Prod.snd)) = true := by
  refine F64.sum_le_of_sublist ((Levels.sublist_of_included h).map _) fun v hv => ?_
  obtain ⟨e, he, rfl⟩ := List.mem_map.mp hv
  exact F64.ge_zero_iff.mpr (Or.inr
    (hpos e.1 e.2 (Std.ExtTreeMap.mem_toList_iff_getElem?_eq_some.mp he)))

end Levels

/-! ## The book -/

/-- The book shows no better price, no narrower spread and no more levels or size than `full`. -/
structure OrderBook.NoBetter (b full : OrderBook) : Prop where
  bestBid : ∀ p ∈ b.bestBid, ∃ q ∈ full.bestBid, p.le q = true
  bestAsk : ∀ p ∈ b.bestAsk, ∃ q ∈ full.bestAsk, q.le p = true
  spread : ∀ p ∈ b.spread, ∃ q ∈ full.spread, q.le p = true
  numBids : b.numBids ≤ full.numBids
  numAsks : b.numAsks ≤ full.numAsks
  totalBidSize : b.totalBidSize.le full.totalBidSize = true
  totalAskSize : b.totalAskSize.le full.totalAskSize = true

namespace OrderBook

section

variable {b full : OrderBook} (h : ∀ s, Included (b.side s) (full.side s))
  (hprices : ∀ s, ∀ q ∈ full.side s, q.IsPos)

include h hprices

/-- The best prices of both books, as numbers. -/
theorem exists_best_of_included {s : Side} {p : F64} (hp : (b.side s).best = some p) :
    ∃ p' q' : ℚ, p = .fin p' ∧ (full.side s).best = some (.fin q') ∧
      (s.cmp (.fin q') (.fin p')).isLE := by
  obtain ⟨hheld, q, hq, hle⟩ := Levels.best_of_included (h s) hp
  obtain ⟨p', rfl, -⟩ := F64.isPos_iff.mp (hprices s p hheld)
  obtain ⟨q', rfl, -⟩ := F64.isPos_iff.mp (hprices s q (Levels.best_mem hq))
  exact ⟨p', q', rfl, hq, hle⟩

theorem exists_bestBid_of_included {p : F64} (hp : b.bestBid = some p) :
    ∃ p' q' : ℚ, p = .fin p' ∧ full.bestBid = some (.fin q') ∧ p' ≤ q' := by
  obtain ⟨p', q', hp', hq', hle⟩ := exists_best_of_included h hprices (s := .bid) hp
  exact ⟨p', q', hp', hq', F64.fin_le_fin.mp (Side.isLE_cmp.mp hle)⟩

theorem exists_bestAsk_of_included {p : F64} (hp : b.bestAsk = some p) :
    ∃ p' q' : ℚ, p = .fin p' ∧ full.bestAsk = some (.fin q') ∧ q' ≤ p' := by
  obtain ⟨p', q', hp', hq', hle⟩ := exists_best_of_included h hprices (s := .ask) hp
  exact ⟨p', q', hp', hq', F64.fin_le_fin.mp (Side.isLE_cmp.mp hle)⟩

theorem noBetter_of_included (hsizes : ∀ s, (full.side s).Positive) : b.NoBetter full where
  bestBid p hp := by
    obtain ⟨p', q', rfl, hq', hle⟩ := exists_bestBid_of_included h hprices hp
    exact ⟨.fin q', hq', by simpa using hle⟩
  bestAsk p hp := by
    obtain ⟨p', q', rfl, hq', hle⟩ := exists_bestAsk_of_included h hprices hp
    exact ⟨.fin q', hq', by simpa using hle⟩
  spread p hp := by
    rw [spread] at hp
    cases hask : b.bestAsk with
    | none => simp [hask] at hp
    | some a =>
      cases hbid : b.bestBid with
      | none => simp [hask, hbid] at hp
      | some c =>
        obtain ⟨a', a'', rfl, hfullAsk, hleAsk⟩ := exists_bestAsk_of_included h hprices hask
        obtain ⟨c', c'', rfl, hfullBid, hleBid⟩ := exists_bestBid_of_included h hprices hbid
        simp only [hask, hbid, F64.sub_fin, Option.mem_some_iff] at hp
        refine ⟨.fin (a'' - c''), ?_, ?_⟩
        · simp [spread, hfullAsk, hfullBid]
        · rw [← hp, F64.le_fin, decide_eq_true_eq]
          exact sub_le_sub hleAsk hleBid
  numBids := Levels.size_le_of_included (h .bid)
  numAsks := Levels.size_le_of_included (h .ask)
  totalBidSize := Levels.total_le_of_included (h .bid) (hsizes .bid)
  totalAskSize := Levels.total_le_of_included (h .ask) (hsizes .ask)

end

end OrderBook

/-! ## Runs -/

namespace BookModel

variable {x : BookModel}

/-- The two sides of a book. -/
def levels (x : BookModel) (b : x.Book) : OrderBook :=
  { bids := x.side b .bid, asks := x.side b .ask }

theorem side_levels (b : x.Book) (s : Side) : (x.levels b).side s = x.side b s := by
  cases s <;> rfl

/-- All sizes of the message are zero or more. -/
def SizesNonneg (x : BookModel) (msg : x.Msg) : Prop :=
  ∀ s, ∀ e ∈ x.entries msg s, e.2.ge F64.zero = true

instance (msg : x.Msg) : Decidable (x.SizesNonneg msg) :=
  inferInstanceAs (Decidable (∀ s, ∀ e ∈ x.entries msg s, e.2.ge F64.zero = true))

/-- What an exchange lists: prices are positive, and so are the sizes that are no removals. -/
structure Listed (x : BookModel) (msg : x.Msg) : Prop extends x.WellFormed msg where
  prices : x.PricesPositive msg
  sizes : x.SizesNonneg msg

instance (msg : x.Msg) [Decidable (x.fits msg)] : Decidable (x.Listed msg) :=
  decidable_of_iff (x.WellFormed msg ∧ x.PricesPositive msg ∧ x.SizesNonneg msg)
    ⟨fun h => { toWellFormed := h.1, prices := h.2.1, sizes := h.2.2 },
      fun h => ⟨h.toWellFormed, h.prices, h.sizes⟩⟩

/-- The levels of a book without a filter have positive prices and sizes. -/
structure Sound (x : BookModel) (b : x.Book) : Prop where
  prices : x.HeldPositive b
  sizes : ∀ s, (x.side b s).Positive

theorem sound_new : x.Sound x.new := by
  constructor
  · intro s q hq
    rw [x.side_new s] at hq
    simp at hq
  · intro s
    rw [x.side_new s]
    exact Levels.positive_empty

/-- A side that is replaced or updated holds its own prices and those of the entries. -/
theorem isPos_replay {s : Side} {m : Levels s} {ws : List (F64 × Option F64)}
    (hm : ∀ q ∈ m, q.IsPos) (hws : ∀ w ∈ ws, w.1.IsPos) : ∀ q ∈ replay m ws, q.IsPos := by
  intro q hq
  rcases mem_replay_iff.mp hq with ⟨v, hlast⟩ | ⟨-, hheld⟩
  · exact hws _ (mem_of_last_eq_some hlast)
  · exact hm q hheld

theorem sound_step {b : x.Book} {msg : x.Msg} (h : x.Sound b) (hmsg : x.Listed msg) :
    x.Sound (x.processMsg msg none b) := by
  cases hk : x.kind msg with
  | snapshot =>
    have hside : ∀ s, x.side (x.processMsg msg none b) s
        = replaceSide (x.side b s) (x.snapshot msg none s) :=
      fun s => x.side_snapshot msg none b s hk
    refine ⟨fun s => ?_, fun s => ?_⟩
    · rw [hside]
      rcases x.snapshot_unfiltered msg s hk (hmsg.fits hk) with hall | ⟨-, hkeep⟩
      · rw [hall]
        intro q hq
        obtain ⟨e, he, -, rfl⟩ := mem_replay_stores.mp hq
        exact hmsg.prices s e he
      · rw [hkeep]
        exact h.prices s
    · rw [hside]
      exact Levels.positive_replaceSide (h.sizes s) _
  | update =>
    have hside : ∀ s, x.side (x.processMsg msg none b) s
        = replay (x.side b s) (writes (x.entries msg s)) :=
      fun s => x.side_update msg none b s hk
    refine ⟨fun s => ?_, fun s => ?_⟩
    · rw [hside]
      refine isPos_replay (h.prices s) fun w hw => ?_
      obtain ⟨e, he, rfl⟩ := List.mem_map.mp hw
      exact hmsg.prices s e he
    · rw [hside, Levels.positive_replay_iff (h.sizes s)]
      intro q v hlast
      obtain ⟨e, he, rfl⟩ := Option.map_eq_some_iff.mp hlast
      exact hmsg.sizes s e (List.mem_of_mem_filter (List.mem_of_getLast? he))
  | order => exact absurd hk hmsg.notOrder
  | idle =>
    have hside : ∀ s, x.side (x.processMsg msg none b) s = x.side b s :=
      fun s => x.side_idle msg none b s hk
    refine ⟨fun s => ?_, fun s => ?_⟩
    · rw [hside]
      exact h.prices s
    · rw [hside]
      exact h.sizes s

end BookModel

/-- **What a filtered book promises.** In every run of an exchange's book, after every message the
book filtered with `MaxLevel(n)` shows no better price, no narrower spread and no more levels or
size than the unfiltered book. -/
theorem Exchange.maxLevel_conservative (x : Exchange) (n : ℕ) (msgs : List x.model.Msg)
    (hmsgs : ∀ msg ∈ msgs, x.model.Listed msg) :
    Trace.Always (x.model.stepBoth (.maxLevel n))
      (fun p => (x.model.levels p.1).NoBetter (x.model.levels p.2)) (x.model.new, x.model.new)
      msgs := by
  have hsubset := @BookModel.always_subset_maxLevel x.model n msgs
    fun msg hmsg => (hmsgs msg hmsg).toWellFormed
  have hsound : Trace.Always (x.model.stepBoth (.maxLevel n)) (fun p => x.model.Sound p.2)
      (x.model.new, x.model.new) msgs :=
    Trace.always_of_inductive BookModel.sound_new hmsgs fun _ _ h hmsg =>
      BookModel.sound_step h hmsg
  intro pre hpre
  have hparts := hsubset pre hpre
  have hfull := hsound pre hpre
  refine OrderBook.noBetter_of_included (fun s => ?_) (fun s => ?_) fun s => ?_
  · rw [BookModel.side_levels, BookModel.side_levels]
    exact hparts s
  · rw [BookModel.side_levels]
    exact hfull.prices s
  · rw [BookModel.side_levels]
    exact hfull.sizes s

/-- The second bid is left out, and the best one is removed. -/
def droppedBid : List Exchange.okx.model.Msg :=
  [Okx.booksMsg "snapshot" [("100", "1"), ("99", "2")] [("101", "1")],
    Okx.booksMsg "update" [("100", "0")] [("101", "4")]]

theorem Exchange.maxLevel_conservative_droppedBid :
    Trace.Always (Okx.model.stepBoth (.maxLevel 1))
      (fun p => (Okx.model.levels p.1).NoBetter (Okx.model.levels p.2))
      (OrderBook.new, OrderBook.new) droppedBid :=
  Exchange.maxLevel_conservative .okx 1 droppedBid (by decide +kernel)

end Cryptomeria
