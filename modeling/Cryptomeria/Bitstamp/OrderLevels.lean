import Cryptomeria.Lob.Positive

/-!
# The levels that a single order leaves

Where all tracked orders have positive sizes, a level of theirs is there as long as one of them
stands at it. So the book before an entry of the `live_orders` channel tells which levels are there
after it, and no sum has to be formed (`mem_applyOrder_iff`).
-/

set_option autoImplicit false

namespace Cryptomeria
namespace Bitstamp
namespace OrderBook

variable {b : OrderBook} {entry : OrderEntry} {pl : Side × F64}

/-- A tracked order stands at the place. -/
def Occupied (b : OrderBook) (pl : Side × F64) : Prop :=
  ∃ (id : ℕ) (info : OrderInfo), b.orders[id]? = some info ∧ info.place = pl

/-- The entry puts an order at the place. -/
def Puts (entry : OrderEntry) (pl : Side × F64) : Prop :=
  place entry = some pl ∧
    ∃ amount, parseF64 entry.amount = some amount ∧ amount.gt F64.zero = true

/-- The order of the entry stands at the place so far. -/
def Amends (b : OrderBook) (entry : OrderEntry) (pl : Side × F64) : Prop :=
  ∃ info, b.orders[entry.id]? = some info ∧ info.place = pl

/-- An order other than that of the entry stands at the place. -/
def Shared (b : OrderBook) (entry : OrderEntry) (pl : Side × F64) : Prop :=
  ∃ (id : ℕ) (info : OrderInfo), id ≠ entry.id ∧ b.orders[id]? = some info ∧ info.place = pl

/-! ## Occupied places -/

theorem orderTotal_eq_zero_iff (h : b.OrdersPositive) (s : Side) (p : F64) :
    b.orderTotal s p = F64.zero ↔ ¬ b.Occupied (s, p) := by
  constructor
  · rintro hzero ⟨id, info, hinfo, hplace⟩
    have hpos : (b.orderTotal s p).gt F64.zero = true := by
      apply F64.sum_gt_zero
      · rw [Ne, List.map_eq_nil_iff, List.filter_eq_nil_iff]
        intro hall
        refine hall (id, info) (Std.ExtTreeMap.mem_toList_iff_getElem?_eq_some.mpr hinfo) ?_
        obtain ⟨hs, hp⟩ := Prod.mk.inj hplace
        simp [hs, hp]
      · intro x hx
        obtain ⟨e, he, rfl⟩ := List.mem_map.mp hx
        have hmem := (List.mem_filter.mp he).1
        exact h e.1 e.2 (Std.ExtTreeMap.mem_toList_iff_getElem?_eq_some.mp hmem)
    rw [hzero] at hpos
    exact absurd hpos (by decide)
  · intro hfree
    rw [orderTotal, List.filter_eq_nil_iff.mpr]
    · rfl
    · rintro ⟨id, info⟩ hmem hat
      simp only [Bool.and_eq_true, beq_iff_eq] at hat
      exact hfree ⟨id, info, Std.ExtTreeMap.mem_toList_iff_getElem?_eq_some.mp hmem,
        Prod.ext hat.1 hat.2⟩

/-- A rebuilt level is there if its place is occupied, and the other levels stay. -/
theorem mem_rebuildAll_iff (h : b.OrdersPositive) (places : List (Side × F64)) (s : Side)
    (q : F64) :
    q ∈ (b.rebuildAll places).toOrderBook.side s ↔
      (s, q) ∈ places ∧ b.Occupied (s, q) ∨ (s, q) ∉ places ∧ q ∈ b.toOrderBook.side s := by
  rw [Std.ExtTreeMap.mem_iff_isSome_getElem?, getElem?_rebuildAll,
    Std.ExtTreeMap.mem_iff_isSome_getElem?]
  by_cases hplace : (s, q) ∈ places
  · rw [if_pos hplace]
    by_cases hoccupied : b.Occupied (s, q)
    · rw [if_neg (mt (orderTotal_eq_zero_iff h s q).mp (not_not.mpr hoccupied))]
      simp [hplace, hoccupied]
    · rw [if_pos ((orderTotal_eq_zero_iff h s q).mpr hoccupied)]
      simp [hplace, hoccupied]
  · simp [hplace]

theorem occupied_insertOrder {new : OrderInfo} :
    (b.insertOrder entry.id new).Occupied pl ↔ new.place = pl ∨ b.Shared entry pl := by
  constructor
  · rintro ⟨id, info, hinfo, hplace⟩
    replace hinfo : (b.orders.insert entry.id new)[id]? = some info := hinfo
    rw [Std.ExtTreeMap.getElem?_insert] at hinfo
    split at hinfo
    · left
      rw [Option.some.inj hinfo]
      exact hplace
    · rename_i hid
      exact Or.inr ⟨id, info, fun heq => hid (by simp [heq]), hinfo, hplace⟩
  · rintro (hplace | ⟨id, info, hid, hinfo, hplace⟩)
    · exact ⟨entry.id, new, Std.ExtTreeMap.getElem?_insert_self, hplace⟩
    · refine ⟨id, info, ?_, hplace⟩
      show (b.orders.insert entry.id new)[id]? = some info
      rw [Std.ExtTreeMap.getElem?_insert, if_neg (by simpa using hid.symm)]
      exact hinfo

theorem occupied_removeOrder : (b.removeOrder entry.id).Occupied pl ↔ b.Shared entry pl := by
  constructor
  · rintro ⟨id, info, hinfo, hplace⟩
    replace hinfo : (b.orders.erase entry.id)[id]? = some info := hinfo
    rw [Std.ExtTreeMap.getElem?_erase] at hinfo
    split at hinfo
    · cases hinfo
    · rename_i hid
      exact ⟨id, info, fun heq => hid (by simp [heq]), hinfo, hplace⟩
  · rintro ⟨id, info, hid, hinfo, hplace⟩
    refine ⟨id, info, ?_, hplace⟩
    show (b.orders.erase entry.id)[id]? = some info
    rw [Std.ExtTreeMap.getElem?_erase, if_neg (by simpa using hid.symm)]
    exact hinfo

/-! ## After an entry -/

theorem puts_iff {price amount : F64} (hprice : parseF64 entry.price = some price)
    (hamount : parseF64 entry.amount = some amount) :
    Puts entry pl ↔ (entry.side, price) = pl ∧ amount.gt F64.zero = true := by
  rw [Puts, place_eq hprice, hamount]
  simp

theorem amends_iff {existing : OrderInfo} (hsome : b.orders[entry.id]? = some existing) :
    b.Amends entry pl ↔ existing.place = pl := by
  rw [Amends, hsome]
  simp

theorem not_amends (hnone : b.orders[entry.id]? = none) : ¬ b.Amends entry pl := by
  rintro ⟨info, hinfo, -⟩
  exact absurd (hnone.symm.trans hinfo) (by simp)

theorem OrdersPositive.insertOrder (h : b.OrdersPositive) (id : ℕ) (new : OrderInfo)
    (hnew : new.size.gt F64.zero = true) : (b.insertOrder id new).OrdersPositive :=
  h.insert_iff.mpr hnew

theorem OrdersPositive.removeOrder (h : b.OrdersPositive) (id : ℕ) :
    (b.removeOrder id).OrdersPositive := by
  intro id' info hinfo
  replace hinfo : (b.orders.erase id)[id']? = some info := hinfo
  rw [Std.ExtTreeMap.getElem?_erase] at hinfo
  split at hinfo
  · cases hinfo
  · exact h id' info hinfo

/-- An entry settles the place of its order, the old one and the new one. There it leaves a level
if it puts the order there or another one stands there; every other level stays. -/
theorem mem_applyOrder (h : b.OrdersPositive) {price amount : F64}
    (hprice : parseF64 entry.price = some price) (hamount : parseF64 entry.amount = some amount)
    (hge : amount.ge F64.zero = true) (s : Side) (q : F64) :
    q ∈ (b.applyOrder entry).toOrderBook.side s ↔
      (Puts entry (s, q) ∨ b.Amends entry (s, q)) ∧ (Puts entry (s, q) ∨ b.Shared entry (s, q)) ∨
        ¬ (Puts entry (s, q) ∨ b.Amends entry (s, q)) ∧ q ∈ b.toOrderBook.side s := by
  have heffect := orderEffect b entry
  generalize b.applyOrder entry = b' at heffect
  cases heffect with
  | unreadable hunreadable => simp [hprice, hamount] at hunreadable
  | unknown hprice' hamount' hnone hpos =>
    obtain rfl := Option.some.inj (hamount.symm.trans hamount')
    rw [puts_iff hprice hamount, hpos]
    simp [not_amends hnone]
  | added hprice' hamount' hnone hpos =>
    obtain rfl := Option.some.inj (hprice.symm.trans hprice')
    obtain rfl := Option.some.inj (hamount.symm.trans hamount')
    rw [mem_rebuildAll_iff (h.insertOrder _ _ hpos), occupied_insertOrder, List.mem_singleton,
      puts_iff hprice hamount, eq_comm (a := (s, q))]
    simp only [hpos, and_true, not_amends hnone, or_false]
    rfl
  | removed hprice' hamount' hsome hzero =>
    obtain rfl := Option.some.inj (hamount.symm.trans hamount')
    have hnot : ¬ Puts entry (s, q) := by
      rw [puts_iff hprice hamount, hzero]
      exact fun hputs => absurd hputs.2 (by decide)
    rw [mem_rebuildAll_iff (h.removeOrder _), occupied_removeOrder, List.mem_singleton,
      amends_iff hsome, eq_comm (a := (s, q))]
    simp only [hnot, false_or]
    rfl
  | amended hprice' hamount' hsome hne hplaces =>
    obtain rfl := Option.some.inj (hprice.symm.trans hprice')
    obtain rfl := Option.some.inj (hamount.symm.trans hamount')
    have hpos := F64.gt_zero_of_ge_zero hge hne
    rw [mem_rebuildAll_iff (h.insertOrder _ _ hpos), occupied_insertOrder, hplaces,
      puts_iff hprice hamount, amends_iff hsome, or_comm (a := (s, q) = _),
      eq_comm (a := (s, q)), eq_comm (a := (s, q))]
    simp only [hpos, and_true]
    rfl

/-- The entry brings the level or leaves it to another order. -/
def Stores (b : OrderBook) (entry : OrderEntry) (pl : Side × F64) : Prop :=
  Puts entry pl ∨ b.Amends entry pl ∧ b.Shared entry pl

/-- The order of the entry leaves the place, and no other stands there. -/
def Removes (b : OrderBook) (entry : OrderEntry) (pl : Side × F64) : Prop :=
  b.Amends entry pl ∧ ¬ Puts entry pl ∧ ¬ b.Shared entry pl

/-- The levels after an entry, from the book before it. -/
theorem mem_applyOrder_iff (h : b.OrdersPositive) {price amount : F64}
    (hprice : parseF64 entry.price = some price) (hamount : parseF64 entry.amount = some amount)
    (hge : amount.ge F64.zero = true) (s : Side) (q : F64) :
    q ∈ (b.applyOrder entry).toOrderBook.side s ↔
      b.Stores entry (s, q) ∨ q ∈ b.toOrderBook.side s ∧ ¬ b.Removes entry (s, q) := by
  rw [mem_applyOrder h hprice hamount hge, Stores, Removes]
  grind

end OrderBook
end Bitstamp
end Cryptomeria
