import Cryptomeria.Exchange

/-!
# Single orders

What one entry of the `live_orders` channel does. It changes the order with its id, and rebuilds
the levels where that order stood and where it stands (`applyOrder_effect`). From this one
description: the levels are the totals of the tracked orders (`levels_mirror_orders`), and when a
tracked order is the one of its last message (`mirrors_last_iff`).
-/

set_option autoImplicit false

namespace Cryptomeria
namespace Bitstamp

namespace OrderBook

/-! ## Totals -/

/-- Only orders at the price count. -/
theorem orderTotal_congr {b b' : OrderBook} {s : Side} {p : F64}
    (h : ∀ (id : ℕ) (info : OrderInfo), info.place = (s, p) →
      (b.orders[id]? = some info ↔ b'.orders[id]? = some info)) :
    b.orderTotal s p = b'.orderTotal s p := by
  have hsame : b.orders.toList.filter (fun e => e.2.side == s && e.2.price == p)
      = b'.orders.toList.filter fun e => e.2.side == s && e.2.price == p := by
    refine WriteLog.filter_toList_congr fun id info hat => ?_
    simp only [Bool.and_eq_true, beq_iff_eq] at hat
    exact h id info (Prod.ext hat.1 hat.2)
  exact congrArg (fun es => F64.sum (es.map fun e => e.2.size)) hsame

theorem getElem?_rebuildPriceLevel_self (b : OrderBook) (s : Side) (p : F64) :
    ((b.rebuildPriceLevel s p).toOrderBook.side s)[p]?
      = if b.orderTotal s p = F64.zero then none else some (b.orderTotal s p) := by
  unfold rebuildPriceLevel
  simp only [Cryptomeria.OrderBook.side_setSide_self, F64.eq_zero]
  split
  · simp
  · simp

theorem getElem?_rebuildAll (b : OrderBook) (places : List (Side × F64)) (s : Side) (p : F64) :
    ((b.rebuildAll places).toOrderBook.side s)[p]?
      = if (s, p) ∈ places then
          if b.orderTotal s p = F64.zero then none else some (b.orderTotal s p)
        else (b.toOrderBook.side s)[p]? := by
  induction places generalizing b with
  | nil => rfl
  | cons place places ih =>
    have htotal : (b.rebuildPriceLevel place.1 place.2).orderTotal s p = b.orderTotal s p := rfl
    have hstep : (b.rebuildAll (place :: places))
        = (b.rebuildPriceLevel place.1 place.2).rebuildAll places := rfl
    rw [hstep, ih, htotal]
    by_cases hmem : (s, p) ∈ places
    · rw [if_pos hmem, if_pos (List.mem_cons_of_mem _ hmem)]
    · rw [if_neg hmem]
      by_cases hplace : place = (s, p)
      · subst hplace
        rw [if_pos List.mem_cons_self]
        exact getElem?_rebuildPriceLevel_self b s p
      · rw [getElem?_rebuildPriceLevel b hplace,
          if_neg (by simpa [List.mem_cons, hmem] using Ne.symm hplace)]

/-! ## One entry -/

/-- Orders that differ at one id only, and there stand at these places. -/
theorem getElem?_iff_of_replaced {m m' : Std.ExtTreeMap ℕ OrderInfo} {id : ℕ}
    {places : List (Side × F64)} (hother : ∀ id', id' ≠ id → m'[id']? = m[id']?)
    (hold : ∀ info : OrderInfo, m[id]? = some info → info.place ∈ places)
    (hnew : ∀ info : OrderInfo, m'[id]? = some info → info.place ∈ places)
    (id' : ℕ) (info : OrderInfo) (hplace : info.place ∉ places) :
    m[id']? = some info ↔ m'[id']? = some info := by
  by_cases hid : id' = id
  · subst hid
    constructor
    · exact fun h => absurd (hold info h) hplace
    · exact fun h => absurd (hnew info h) hplace
  · rw [hother id' hid]

/-- An entry replaces orders and rebuilds every level that these stand or stood at. -/
theorem applyOrder_effect (b : OrderBook) (entry : OrderEntry) :
    ∃ (orders : Std.ExtTreeMap ℕ OrderInfo) (places : List (Side × F64)),
      b.applyOrder entry = ({ b with orders }).rebuildAll places ∧
        ∀ (id : ℕ) (info : OrderInfo), info.place ∉ places →
          (b.orders[id]? = some info ↔ orders[id]? = some info) := by
  have hinsert : ∀ (new : OrderInfo) id', id' ≠ entry.id →
      (b.orders.insert entry.id new)[id']? = b.orders[id']? := by
    intro new id' hid
    rw [Std.ExtTreeMap.getElem?_insert, if_neg (by simpa using hid.symm)]
  -- the order that is stored stands at the place of the entry
  have hstored : ∀ (new info : OrderInfo),
      (b.orders.insert entry.id new)[entry.id]? = some info → info.place = new.place := by
    intro new info h
    rw [Std.ExtTreeMap.getElem?_insert_self] at h
    rw [← Option.some.inj h]
  have heffect := orderEffect b entry
  generalize b.applyOrder entry = b' at heffect
  cases heffect with
  | unreadable | unknown => exact ⟨b.orders, [], rfl, fun _ _ _ => Iff.rfl⟩
  | added _ _ hnone =>
    refine ⟨_, _, rfl, getElem?_iff_of_replaced (hinsert _) ?_ ?_⟩
    · exact fun info h => absurd (hnone.symm.trans h) (by simp)
    · exact fun info h => List.mem_singleton.mpr (hstored _ info h)
  | @removed _ _ existing _ _ hsome _ =>
    have herase : ∀ id', id' ≠ entry.id → (b.orders.erase entry.id)[id']? = b.orders[id']? := by
      intro id' hid
      rw [Std.ExtTreeMap.getElem?_erase, if_neg (by simpa using hid.symm)]
    refine ⟨b.orders.erase entry.id, [existing.place], rfl,
      getElem?_iff_of_replaced herase ?_ ?_⟩
    · intro info h
      rw [Option.some.inj (h.symm.trans hsome)]
      exact List.mem_singleton_self _
    · intro info h
      simp at h
  | amended _ _ hsome _ hplaces =>
    refine ⟨_, _, rfl, getElem?_iff_of_replaced (hinsert _) ?_ ?_⟩
    · intro info h
      rw [Option.some.inj (h.symm.trans hsome)]
      exact (hplaces _).mpr (Or.inl rfl)
    · exact fun info h => (hplaces _).mpr (Or.inr (hstored _ info h))

/-! ## The levels are the totals -/

/-- A level is there exactly when the tracked orders at its side and price add up to something
other than zero, and then it is that sum. -/
def MirrorsOrders (b : OrderBook) : Prop :=
  ∀ s p, (b.toOrderBook.side s)[p]?
    = if b.orderTotal s p = F64.zero then none else some (b.orderTotal s p)

theorem mirrorsOrders_applyOrder {b : OrderBook} (h : b.MirrorsOrders) (entry : OrderEntry) :
    (b.applyOrder entry).MirrorsOrders := by
  obtain ⟨orders, places, heq, hsame⟩ := applyOrder_effect b entry
  intro s p
  have htotal : (b.applyOrder entry).orderTotal s p = ({ b with orders }).orderTotal s p := by
    refine orderTotal_congr fun id info _ => ?_
    rw [heq, orders_rebuildAll]
  rw [htotal, heq, getElem?_rebuildAll]
  by_cases hplace : (s, p) ∈ places
  · rw [if_pos hplace]
  · have hkept : b.orderTotal s p = ({ b with orders }).orderTotal s p := by
      refine orderTotal_congr fun id info hat => ?_
      exact hsame id info (hat ▸ hplace)
    rw [if_neg hplace, ← hkept]
    exact h s p

theorem mirrorsOrders_new (depth : ℕ) : (withSnapshotDepth depth).MirrorsOrders := by
  intro s p
  have htotal : (withSnapshotDepth depth).orderTotal s p = F64.zero := rfl
  rw [if_pos htotal]
  cases s <;> rfl

/-- **Levels and orders agree** after every entry, whatever the entries are. -/
theorem levels_mirror_orders (depth : ℕ) (entries : List OrderEntry) :
    Trace.Always applyOrder MirrorsOrders (withSnapshotDepth depth) entries := by
  refine Trace.always_of_inductive (H := fun _ => True) (mirrorsOrders_new depth)
    (fun _ _ => trivial) ?_
  intro b entry h _
  exact mirrorsOrders_applyOrder h entry

/-! ## The last message of an order -/

/-- What an entry that can be read does to the tracked orders. -/
theorem orders_applyOrder_of_parse (b : OrderBook) {entry : OrderEntry} {price amount : F64}
    (hprice : parseF64 entry.price = some price) (hamount : parseF64 entry.amount = some amount) :
    (b.applyOrder entry).orders
      = if amount = F64.zero then b.orders.erase entry.id
        else if entry.id ∈ b.orders ∨ amount.gt F64.zero = true then
          b.orders.insert entry.id { price, size := amount, side := entry.side }
        else b.orders := by
  have htracked : ∀ {existing : OrderInfo}, b.orders[entry.id]? = some existing →
      entry.id ∈ b.orders := by
    intro existing hsome
    rw [Std.ExtTreeMap.mem_iff_isSome_getElem?, hsome]
    rfl
  have huntracked : b.orders[entry.id]? = none → entry.id ∉ b.orders := by
    intro hnone hmem
    rw [Std.ExtTreeMap.mem_iff_isSome_getElem?, hnone] at hmem
    simp at hmem
  have heffect := orderEffect b entry
  generalize b.applyOrder entry = b' at heffect ⊢
  cases heffect with
  | unreadable h =>
    rw [hprice, hamount] at h
    simp at h
  | unknown _ hamount' hnone hpos =>
    obtain rfl := Option.some.inj (hamount.symm.trans hamount')
    split
    · -- there is nothing to remove
      refine Std.ExtTreeMap.ext_getElem? fun id => ?_
      rw [Std.ExtTreeMap.getElem?_erase]
      split
      · rename_i hid
        rw [← Std.LawfulEqCmp.compare_eq_iff_eq.mp hid]
        exact hnone
      · rfl
    · rw [if_neg]
      simp [huntracked hnone, hpos]
  | added hprice' hamount' _ hpos =>
    obtain rfl := Option.some.inj (hprice.symm.trans hprice')
    obtain rfl := Option.some.inj (hamount.symm.trans hamount')
    have hne : amount ≠ F64.zero := by
      rintro rfl
      exact absurd hpos (by decide)
    rw [orders_rebuildAll, if_neg hne, if_pos (Or.inr hpos)]
    rfl
  | removed _ hamount' _ hzero =>
    obtain rfl := Option.some.inj (hamount.symm.trans hamount')
    rw [orders_rebuildAll, if_pos hzero]
    rfl
  | amended hprice' hamount' hsome hne =>
    obtain rfl := Option.some.inj (hprice.symm.trans hprice')
    obtain rfl := Option.some.inj (hamount.symm.trans hamount')
    rw [orders_rebuildAll, if_neg hne, if_pos (Or.inl (htracked hsome))]
    rfl

end OrderBook

/-- A message of the `live_orders` channel with an entry that can be read. -/
structure LiveOrder where
  msg : BitstampWsMessage
  entry : OrderEntry
  price : F64
  amount : F64
  event : msg.event
    ∈ [some "order_created", some "order_changed", some "order_deleted", some "data"]
  channel : ∃ channel, msg.channel = some channel ∧ channel.startsWith "live_orders_" = true
  data : msg.data.bind OrderEntry.ofValue = some entry
  parse_price : parseF64 entry.price = some price
  parse_amount : parseF64 entry.amount = some amount
  amount_nonneg : amount.ge F64.zero = true

namespace LiveOrder

variable (filter : Option LobFilter) (m : LiveOrder) (b : OrderBook)

def deleted : Bool := m.msg.event == some "order_deleted"

/-- The order as the message has it. -/
def info : OrderInfo := { price := m.price, size := m.amount, side := m.entry.side }

def passes : Bool := b.entryPasses filter m.entry

def step (b : OrderBook) (m : LiveOrder) : OrderBook := OrderBook.processMsg m.msg filter b

/-- What the tracked orders should say of the order after its message. -/
def MirroredBy : Prop :=
  if m.deleted = true ∨ m.amount = F64.zero then m.entry.id ∉ b.orders
  else ∀ info, b.orders[m.entry.id]? = some info → info = m.info

/-- The amount is zero, or the message is no deletion and passes the filter. What does not pass
may concern an order that is not tracked, or one that stands as the message has it already. -/
def Heeded (b : OrderBook) (m : LiveOrder) : Prop :=
  m.amount = F64.zero ∨
    if m.deleted = true then m.passes filter b = false ∧ m.entry.id ∉ b.orders
    else m.passes filter b = true ∨ ∀ info, b.orders[m.entry.id]? = some info → info = m.info

variable {filter}

theorem orderOf_msg : orderOf m.msg = some m.entry := by
  obtain ⟨channel, hchannel, hlive⟩ := m.channel
  obtain ⟨data, hdata, hentry⟩ := Option.bind_eq_some_iff.mp m.data
  have htype : m.msg.messageType = .l2Update := by
    have hevent := m.event
    simp only [List.mem_cons, List.not_mem_nil, or_false] at hevent
    rcases hevent with h | h | h | h <;>
      simp [BitstampWsMessage.messageType, h, hchannel, hlive]
  have hkind : kindOf m.msg = .order := by simp [kindOf, hdata, htype, hchannel, hlive]
  rw [orderOf, if_pos hkind]
  exact m.data

theorem step_eq : step filter b m = if m.passes filter b then b.applyOrder m.entry else b := by
  unfold step passes
  rw [processMsg_of_kind_order (kindOf_of_orderOf m.orderOf_msg), m.orderOf_msg]
  cases hpasses : b.entryPasses filter m.entry <;> simp [Option.filter_some, hpasses]

/-- A removal passes every filter. -/
theorem passes_of_zero (h : m.amount = F64.zero) : m.passes filter b = true := by
  unfold passes OrderBook.entryPasses
  cases filter with
  | none => rfl
  | some f =>
    have hzero : m.amount.eq F64.zero = true := F64.eq_zero.mpr h
    simp [OrderBook.filterOrderEntry, m.parse_price, m.parse_amount,
      LobFilter.shouldInclude_zero hzero]

theorem mirroredBy_step_iff : m.MirroredBy (step filter b m) ↔ Heeded filter b m := by
  rw [step_eq, MirroredBy, Heeded]
  by_cases hzero : m.amount = F64.zero
  · have horders := b.orders_applyOrder_of_parse m.parse_price m.parse_amount
    rw [if_pos hzero] at horders
    rw [if_pos (Or.inr hzero), if_pos (passes_of_zero m b hzero), horders]
    simp [hzero]
  · have hpos : m.amount.gt F64.zero = true := F64.gt_zero_of_ge_zero m.amount_nonneg hzero
    cases hpasses : m.passes filter b with
    | true =>
      have horders := b.orders_applyOrder_of_parse m.parse_price m.parse_amount
      rw [if_neg hzero, if_pos (Or.inr hpos)] at horders
      rw [if_pos rfl, horders]
      by_cases hdeleted : m.deleted = true
      · simp [hdeleted, hzero]
      · simp [hdeleted, hzero, info, eq_comm]
    | false =>
      simp only [Bool.false_eq_true, if_false]
      by_cases hdeleted : m.deleted = true
      · simp [hdeleted, hzero]
      · simp [hdeleted, hzero]

/-- **Orders mirror their last message** in every run in which each message is heeded, and in no
other. -/
theorem mirrors_last_iff (depth : ℕ) (filter : Option LobFilter) (ms : List LiveOrder) :
    Trace.EachStep (step filter) (fun b m => m.MirroredBy (step filter b m))
        (OrderBook.withSnapshotDepth depth) ms
      ↔ Trace.EachStep (step filter) (Heeded filter) (OrderBook.withSnapshotDepth depth) ms := by
  refine forall₂_congr fun pre m => forall_congr' fun _ => ?_
  exact mirroredBy_step_iff m _

/-- A message of the channel about the bid with id 1. -/
def ofBid (event price amount : String) (q v : F64)
    (hevent : event ∈ ["order_created", "order_changed", "order_deleted", "data"])
    (hprice : parseF64 price = some q) (hamount : parseF64 amount = some v)
    (hnonneg : v.ge F64.zero = true) : LiveOrder where
  msg :=
    { event := some event
      channel := some "live_orders_btcusd"
      data := some (.object [("id", .number (.int 1)), ("price", .string price),
        ("amount", .string amount), ("type", .number (.int 0))]) }
  entry := { id := 1, price, amount }
  price := q
  amount := v
  event := by simpa using hevent
  channel := ⟨"live_orders_btcusd", rfl, by decide +kernel⟩
  data := rfl
  parse_price := hprice
  parse_amount := hamount
  amount_nonneg := hnonneg

def createdBid : LiveOrder :=
  ofBid "order_created" "100" "1" (.fin 100) (.fin 1) (by decide) (by decide +kernel)
    (by decide +kernel) (by decide +kernel)

/-- The bid is cancelled with its whole amount unfilled. -/
def cancelledBid : LiveOrder :=
  ofBid "order_deleted" "100" "1" (.fin 100) (.fin 1) (by decide) (by decide +kernel)
    (by decide +kernel) (by decide +kernel)

/-- The bid moves to 90. -/
def movedBid : LiveOrder :=
  ofBid "order_changed" "90" "1" (.fin 90) (.fin 1) (by decide) (by decide +kernel)
    (by decide +kernel) (by decide +kernel)

/-- A cancelled order stays, and so does the old price of one that leaves the window. -/
theorem outlives_last_message :
    (¬ Trace.EachStep (step none) (fun b m => m.MirroredBy (step none b m)) OrderBook.new
        [createdBid, cancelledBid]) ∧
      ¬ Trace.EachStep (step (some (.maxLevelPct (.fin 1))))
        (fun b m => m.MirroredBy (step (some (.maxLevelPct (.fin 1))) b m)) OrderBook.new
        [createdBid, movedBid] := by
  constructor
  · intro h
    have hgone : cancelledBid.MirroredBy
        ([createdBid, cancelledBid].foldl (step none) OrderBook.new) :=
      h [createdBid] cancelledBid List.prefix_rfl
    rw [MirroredBy, if_pos (Or.inl (by decide))] at hgone
    exact absurd hgone (by decide +kernel)
  · intro h
    have hmoved : movedBid.MirroredBy
        ([createdBid, movedBid].foldl (step (some (.maxLevelPct (.fin 1)))) OrderBook.new) :=
      h [createdBid] movedBid List.prefix_rfl
    rw [MirroredBy, if_neg (by decide +kernel)] at hmoved
    exact absurd (hmoved createdBid.info (by decide +kernel)) (by decide +kernel)

end LiveOrder

end Bitstamp
end Cryptomeria
