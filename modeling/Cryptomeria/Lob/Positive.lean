import Cryptomeria.Bitstamp.Orders
import Cryptomeria.Lob.History

/-!
# Positive sizes

When every size of a book is positive. A snapshot and a new order are tested for a positive size.
An update and an amended order are tested for zero only, so a negative size (or NaN) gets in there.
`positive_iff` says that it gets in nowhere else: the sizes of a run are all positive exactly when,
message by message, the last entry let through for each price and each amendment let through has a
size of zero or more.
-/

set_option autoImplicit false

namespace Cryptomeria

open WriteLog

/-! ## One side -/

def Levels.Positive {s : Side} (m : Levels s) : Prop :=
  ∀ q v : F64, m[q]? = some v → v.gt F64.zero = true

section Levels

variable {s : Side} {m : Levels s}

theorem Levels.positive_empty : (∅ : Levels s).Positive := by
  intro q v h
  simp at h

theorem Levels.positive_replaceSide (hm : m.Positive) (es : Option (List (F64 × F64))) :
    (replaceSide m es).Positive := by
  cases es with
  | none => exact hm
  | some es =>
    refine (forall_replay_iff Levels.positive_empty (stores es)).mpr fun q v hlast => ?_
    obtain ⟨e, he, heq⟩ := List.mem_map.mp (mem_of_last_eq_some hlast)
    obtain ⟨-, rfl⟩ := by simpa using heq
    simpa using (List.mem_filter.mp he).2

theorem Levels.positive_replay_iff (hm : m.Positive) (es : List (F64 × F64)) :
    Levels.Positive (replay m (writes es)) ↔
      ∀ q v, lastSize es q = some v → v.ge F64.zero = true := by
  refine (forall_replay_iff hm (writes es)).trans (forall₂_congr fun q v => ?_)
  rw [last_writes, F64.ge_zero_iff]
  cases lastSize es q with
  | none => simp
  | some a =>
    by_cases hzero : a = F64.zero
    · have heq : a.eq F64.zero = true := F64.eq_zero.mpr hzero
      simp only [Option.map_some, heq, if_true, Option.some_inj, reduceCtorEq, false_imp_iff,
        true_iff]
      exact fun hv => Or.inl (hv ▸ hzero)
    · have hne : a.eq F64.zero = false := Bool.eq_false_iff.mpr (mt F64.eq_zero.mp hzero)
      simp only [Option.map_some, hne, Bool.false_eq_true, if_false, Option.some_inj]
      constructor
      · exact fun h hv => Or.inr (h hv)
      · rintro h rfl
        exact (h rfl).resolve_left hzero

end Levels

/-! ## Tracked orders -/

namespace Bitstamp

namespace OrderBook

def OrdersPositive (b : OrderBook) : Prop :=
  ∀ (id : ℕ) (info : OrderInfo), b.orders[id]? = some info → info.size.gt F64.zero = true

variable {b : OrderBook}

theorem orderTotal_gt_zero (h : b.OrdersPositive) {s : Side} {p : F64}
    (hne : b.orderTotal s p ≠ F64.zero) : (b.orderTotal s p).gt F64.zero = true := by
  unfold orderTotal at hne ⊢
  apply F64.sum_gt_zero
  · intro hnil
    rw [hnil] at hne
    exact hne rfl
  · intro x hx
    obtain ⟨e, he, rfl⟩ := List.mem_map.mp hx
    have hmem := (List.mem_filter.mp he).1
    exact h e.1 e.2 (Std.ExtTreeMap.mem_toList_iff_getElem?_eq_some.mp hmem)

/-- The levels that an entry rebuilds are positive if the orders then are. -/
theorem positive_applyOrder {entry : OrderEntry} (h : ∀ s, (b.toOrderBook.side s).Positive)
    (horders : (b.applyOrder entry).OrdersPositive) (s : Side) :
    ((b.applyOrder entry).toOrderBook.side s).Positive := by
  obtain ⟨orders, places, heq, -⟩ := applyOrder_effect b entry
  -- rebuilding levels does not touch the orders
  have hpositive : ({ b with orders } : OrderBook).OrdersPositive := by
    rw [heq, OrdersPositive, orders_rebuildAll] at horders
    exact horders
  intro p v hv
  rw [heq, getElem?_rebuildAll] at hv
  split at hv
  · split at hv
    · simp at hv
    · rename_i hne
      rw [← Option.some.inj hv]
      exact orderTotal_gt_zero hpositive hne
  · exact h s p v hv

/-- An entry that amends a tracked order gives it a size of zero or more. -/
def AmendsWell (b : OrderBook) (entry : OrderEntry) : Prop :=
  entry.id ∈ b.orders → ∀ price, parseF64 entry.price = some price →
    ∀ amount, parseF64 entry.amount = some amount → amount.ge F64.zero = true

theorem OrdersPositive.insert_iff (h : b.OrdersPositive) {id : ℕ} {new : OrderInfo} :
    (∀ (id' : ℕ) (info : OrderInfo), (b.orders.insert id new)[id']? = some info →
      info.size.gt F64.zero = true) ↔ new.size.gt F64.zero = true := by
  constructor
  · exact fun hall => hall id new Std.ExtTreeMap.getElem?_insert_self
  · intro hnew id' info hinfo
    rw [Std.ExtTreeMap.getElem?_insert] at hinfo
    split at hinfo
    · rw [← Option.some.inj hinfo]
      exact hnew
    · exact h id' info hinfo

theorem ordersPositive_applyOrder_iff (h : b.OrdersPositive) (entry : OrderEntry) :
    (b.applyOrder entry).OrdersPositive ↔ b.AmendsWell entry := by
  cases hprice : parseF64 entry.price with
  | none =>
    have hsame : b.applyOrder entry = b := by simp [applyOrder, hprice]
    rw [hsame]
    exact iff_of_true h fun _ price hp => absurd (hprice.symm.trans hp) (by simp)
  | some price =>
    cases hamount : parseF64 entry.amount with
    | none =>
      have hsame : b.applyOrder entry = b := by simp [applyOrder, hprice, hamount]
      rw [hsame]
      exact iff_of_true h fun _ _ _ amount ha => absurd (hamount.symm.trans ha) (by simp)
    | some amount =>
      have hwell : b.AmendsWell entry ↔ (entry.id ∈ b.orders → amount.ge F64.zero = true) := by
        simp [AmendsWell, hprice, hamount]
      rw [hwell, OrdersPositive, orders_applyOrder_of_parse b hprice hamount, F64.ge_zero_iff]
      by_cases hzero : amount = F64.zero
      · rw [if_pos hzero]
        refine iff_of_true (fun id info hinfo => ?_) fun _ => Or.inl hzero
        rw [Std.ExtTreeMap.getElem?_erase] at hinfo
        split at hinfo
        · simp at hinfo
        · exact h id info hinfo
      · rw [if_neg hzero]
        split
        · rename_i hstored
          rw [h.insert_iff]
          constructor
          · exact fun hpos _ => Or.inr hpos
          · intro hwell
            rcases hstored with htracked | hpos
            · exact (hwell htracked).resolve_left hzero
            · exact hpos
        · rename_i hstored
          rw [not_or] at hstored
          exact iff_of_true h fun htracked => absurd htracked hstored.1

theorem positive_order_iff {msg : BitstampWsMessage} (hk : kindOf msg = .order)
    (hlevels : ∀ s, (b.toOrderBook.side s).Positive) (horders : b.OrdersPositive)
    (filter : Option LobFilter) :
    ((∀ s, ((processMsg msg filter b).toOrderBook.side s).Positive) ∧
        (processMsg msg filter b).OrdersPositive) ↔
      ∀ entry, orderOf msg = some entry → b.entryPasses filter entry = true →
        b.AmendsWell entry := by
  rw [processMsg_of_kind_order hk]
  cases orderOf msg with
  | none => exact iff_of_true ⟨hlevels, horders⟩ (by simp)
  | some entry =>
    cases hpasses : b.entryPasses filter entry with
    | false =>
      rw [Option.filter_some, if_neg (by simp [hpasses])]
      refine iff_of_true ⟨hlevels, horders⟩ ?_
      rintro _ ⟨⟩ htrue
      exact absurd (hpasses.symm.trans htrue) (by simp)
    | true =>
      rw [Option.filter_some, if_pos hpasses, Option.elim_some]
      constructor
      · rintro ⟨-, hnext⟩ _ ⟨⟩ -
        exact (ordersPositive_applyOrder_iff horders entry).mp hnext
      · intro hwell
        have hnext := (ordersPositive_applyOrder_iff horders entry).mpr (hwell entry rfl hpasses)
        exact ⟨positive_applyOrder hlevels hnext, hnext⟩

end OrderBook

end Bitstamp

/-! ## Runs -/

namespace Exchange

/-- All tracked orders have positive sizes; only Bitstamp tracks any. -/
def OrdersPositive : (x : Exchange) → x.model.Book → Prop
  | okx, _ => True
  | kraken, _ => True
  | bitstamp _, b => b.1.OrdersPositive

/-- If the message is a single order that the filter lets through, it amends well. -/
def AmendsWell (filter : Option LobFilter) : (x : Exchange) → x.model.Book → x.model.Msg → Prop
  | okx, _, _ => True
  | kraken, _, _ => True
  | bitstamp _, b, msg => ∀ entry, Bitstamp.orderOf msg = some entry →
    b.1.entryPasses filter entry = true → b.1.AmendsWell entry

variable (x : Exchange)

/-- Every size of the book is positive. -/
structure Positive (b : x.model.Book) : Prop where
  levels : ∀ s, (x.model.side b s).Positive
  orders : x.OrdersPositive b

/-- The last entry that an update gets through for a price has a size of zero or more, and so has
an amendment. -/
structure NoNegative (filter : Option LobFilter) (b : x.model.Book) (msg : x.model.Msg) : Prop where
  update : x.model.kind msg = .update → ∀ s q v,
    lastSize (letThrough x.model.grow filter (x.model.side b s) (x.model.entries msg s)) q
      = some v → v.ge F64.zero = true
  amendment : x.AmendsWell filter b msg

variable {x} {filter : Option LobFilter} {b : x.model.Book} {msg : x.model.Msg}

theorem levels_positive_iff (hk : x.model.kind msg ≠ .order)
    (h : ∀ s, (x.model.side b s).Positive) :
    (∀ s, (x.model.side (x.model.processMsg msg filter b) s).Positive) ↔
      (x.model.kind msg = .update → ∀ s q v,
        lastSize (letThrough x.model.grow filter (x.model.side b s) (x.model.entries msg s)) q
          = some v → v.ge F64.zero = true) := by
  cases hkind : x.model.kind msg with
  | snapshot =>
    refine iff_of_true (fun s => ?_) (by simp)
    rw [x.model.side_snapshot _ _ _ _ hkind]
    exact Levels.positive_replaceSide (h s) _
  | update =>
    simp only [true_imp_iff]
    refine forall_congr' fun s => ?_
    rw [x.model.side_update _ _ _ _ hkind]
    exact Levels.positive_replay_iff (h s) _
  | order => exact absurd hkind hk
  | idle =>
    refine iff_of_true (fun s => ?_) (by simp)
    rw [x.model.side_idle _ _ _ _ hkind]
    exact h s

/-- A message that is no single order leaves positive orders, or none at all. -/
theorem ordersPositive_step (hk : x.model.kind msg ≠ .order) (h : x.OrdersPositive b) :
    x.OrdersPositive (x.model.processMsg msg filter b) := by
  cases x with
  | okx => trivial
  | kraken => trivial
  | bitstamp depth =>
    intro id info hinfo
    replace hinfo : (Bitstamp.OrderBook.processMsg msg filter b.1).orders[id]? = some info := hinfo
    rw [Bitstamp.orders_processMsg hk] at hinfo
    split at hinfo
    · simp at hinfo
    · exact h id info hinfo

theorem amendsWell_of_ne (hk : x.model.kind msg ≠ .order) : x.AmendsWell filter b msg := by
  cases x with
  | okx => trivial
  | kraken => trivial
  | bitstamp depth =>
    intro entry hentry
    exact absurd (Bitstamp.kindOf_of_orderOf hentry) hk

theorem Positive.step_order_iff (hk : x.model.kind msg = .order) (h : x.Positive b) :
    x.Positive (x.model.processMsg msg filter b) ↔ x.AmendsWell filter b msg := by
  cases x with
  | okx => exact absurd hk Lob.kindOf_ne_order
  | kraken => exact absurd hk Lob.kindOf_ne_order
  | bitstamp depth =>
    have hstep := Bitstamp.OrderBook.positive_order_iff hk h.levels h.orders filter
    exact ⟨fun hnext => hstep.mp ⟨hnext.levels, hnext.orders⟩,
      fun hwell => ⟨(hstep.mpr hwell).1, (hstep.mpr hwell).2⟩⟩

/-- One message: from a positive book the next one is positive exactly when the message brings in
nothing negative. -/
theorem Positive.step_iff (h : x.Positive b) :
    x.Positive (x.model.processMsg msg filter b) ↔ x.NoNegative filter b msg := by
  by_cases hk : x.model.kind msg = .order
  · rw [h.step_order_iff hk]
    constructor
    · intro hwell
      refine ⟨fun hupdate => ?_, hwell⟩
      exact absurd (hk.symm.trans hupdate) (by simp)
    · exact NoNegative.amendment
  · constructor
    · intro hnext
      exact ⟨(levels_positive_iff hk h.levels).mp hnext.levels, amendsWell_of_ne hk⟩
    · intro hmsg
      exact ⟨(levels_positive_iff hk h.levels).mpr hmsg.update, ordersPositive_step hk h.orders⟩

theorem positive_new : x.Positive x.model.new := by
  constructor
  · intro s
    rw [x.model.side_new s]
    exact Levels.positive_empty
  · cases x with
    | okx => trivial
    | kraken => trivial
    | bitstamp depth =>
      intro id info hinfo
      have hnone : (Bitstamp.OrderBook.withSnapshotDepth depth).orders[id]? = none := by
        simp [Bitstamp.OrderBook.withSnapshotDepth]
      exact absurd (hnone.symm.trans hinfo) (by simp)

/-- **Sizes are positive** in every run whose messages bring in nothing negative, and in no
other. -/
theorem positive_iff (x : Exchange) (filter : Option LobFilter) (msgs : List x.model.Msg) :
    Trace.Always (fun b msg => x.model.processMsg msg filter b) x.Positive x.model.new msgs ↔
      Trace.EachStep (fun b msg => x.model.processMsg msg filter b) (x.NoNegative filter)
        x.model.new msgs := by
  refine Trace.always_iff_eachStep (I := fun _ => True) (H := fun _ => True) trivial positive_new
    (fun _ _ => trivial) (fun _ _ _ _ _ => trivial) ?_
  intro b msg _ h _
  exact h.step_iff

end Exchange

/-- An update stores a negative size, and so does the amendment of an order. -/
theorem negative_sizes_stored :
    ¬ Trace.Always (fun b msg => Okx.model.processMsg msg none b) Exchange.okx.Positive
        OrderBook.new [Okx.booksMsg "update" [("100", "-1")] []] ∧
      ¬ Trace.Always (fun b msg => (Bitstamp.model 400).processMsg msg none b)
        (Exchange.bitstamp 400).Positive (Bitstamp.model 400).new
        [Bitstamp.orderMsg 1 "100" "1", Bitstamp.orderMsg 1 "100" "-1"] := by
  constructor
  · intro h
    exact absurd (h.last.levels .bid (.fin 100) (.fin (-1)) (by decide +kernel)) (by decide)
  · intro h
    have hsize := h.last.orders 1 { price := .fin 100, size := .fin (-1), side := .bid }
      (by decide +kernel)
    exact absurd hsize (by decide)

end Cryptomeria
