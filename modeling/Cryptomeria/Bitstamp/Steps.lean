import Cryptomeria.Bitstamp.Lob
import Cryptomeria.Lob.Steps

/-!
# One Bitstamp message, one side at a time

The same equations as for the other two books. The count that `filter_diff` keeps while it runs
is the `grow` of `admitted`; a snapshot replaces both sides whatever it carries.
-/

set_option autoImplicit false

namespace Cryptomeria
namespace Bitstamp

open WriteLog

def OrderBookData.side (ob : OrderBookData) : Side → List (String × String)
  | .bid => ob.bids
  | .ask => ob.asks

/-- The side and the price of a tracked order. -/
def OrderInfo.place (info : OrderInfo) : Side × F64 := (info.side, info.price)

def OrderEntry.side (entry : OrderEntry) : Side := if entry.orderType = 0 then .bid else .ask

namespace OrderBook

variable {s : Side}

theorem diffSide_eq (m : Levels s) (levels : List (String × String)) :
    diffSide m levels = replay m (writes (levels.filterMap parseLevel)) :=
  foldl_update parseLevel levels m

theorem snapshotSide_eq (depth : ℕ) (s : Side) (levels : List (String × String)) :
    snapshotSide depth s levels
      = replay ∅ (stores ((levels.take depth).filterMap parseLevel)) :=
  foldl_snapshot parseLevel (levels.take depth) ∅

theorem side_applyDiff (b : OrderBook) (ob : OrderBookData) (s : Side) :
    (b.applyDiff ob).toOrderBook.side s
      = replay (b.toOrderBook.side s) (writes ((ob.side s).filterMap parseLevel)) := by
  cases s
  · exact diffSide_eq _ _
  · exact diffSide_eq _ _

theorem side_applySnapshot (b : OrderBook) (ob : OrderBookData) (s : Side) :
    (b.applySnapshot ob).toOrderBook.side s
      = replay ∅ (stores (((ob.side s).take b.snapshotDepth).filterMap parseLevel)) := by
  cases s
  · exact snapshotSide_eq _ _ _
  · exact snapshotSide_eq _ _ _

/-! ## The filter of a diff -/

/-- The loop of `filter_diff` from any accumulator. -/
theorem filterMap_filterDiff_loop (b : OrderBook) (f : LobFilter) (s : Side)
    (levels filtered : List (String × String)) (count : ℕ) :
    ((levels.foldl (fun (filtered, count) level =>
      match parseLevel level with
      | some (price, amount) =>
        let priceExists := (b.toOrderBook.side s).contains price
        if f.shouldInclude b.bestBid b.bestAsk price amount (s = .bid) count priceExists then
          (filtered ++ [level], if priceExists then count else count + 1)
        else (filtered, count)
      | none => (filtered, count))
      (filtered, (b.toOrderBook.side s).size + count)).1).filterMap parseLevel
    = filtered.filterMap parseLevel
        ++ admitted true f (b.toOrderBook.side s) count (levels.filterMap parseLevel) := by
  induction levels generalizing filtered count with
  | nil => simp [admitted]
  | cons l ls ih =>
    rw [List.foldl_cons, List.filterMap_cons]
    cases hp : parseLevel l with
    | none => exact ih filtered count
    | some e =>
      obtain ⟨price, amount⟩ := e
      have hown : f.shouldInclude b.bestBid b.bestAsk price amount (s = .bid)
            ((b.toOrderBook.side s).size + count) ((b.toOrderBook.side s).contains price)
          = admits f (b.toOrderBook.side s) count (price, amount) :=
        shouldInclude_own_side (b.toOrderBook.best_side s)
      simp only [admitted, hown]
      by_cases hadm : admits f (b.toOrderBook.side s) count (price, amount) = true
      · by_cases hc : (b.toOrderBook.side s).contains price = true
        · simp only [hadm, hc, if_true, Bool.not_true, Bool.and_false, Bool.false_eq_true,
            if_false]
          rw [ih, List.filterMap_append]
          simp [hp]
        · simp only [hadm, hc, if_true, if_false, Bool.not_false, Bool.and_true,
            Bool.false_eq_true]
          rw [Nat.add_assoc, ih, List.filterMap_append]
          simp [hp]
      · simp only [hadm, Bool.false_eq_true, if_false]
        exact ih filtered count

theorem filterMap_filterDiffSide (b : OrderBook) (f : LobFilter) (s : Side)
    (levels : List (String × String)) :
    (b.filterDiffSide f s levels).filterMap parseLevel
      = admitted true f (b.toOrderBook.side s) 0 (levels.filterMap parseLevel) :=
  filterMap_filterDiff_loop b f s levels [] 0

theorem side_filterDiff (b : OrderBook) (ob : OrderBookData) (f : LobFilter) (s : Side) :
    (b.filterDiff ob f).side s = b.filterDiffSide f s (ob.side s) := by
  cases s <;> rfl

/-! ## The filter of a snapshot -/

/-- The positive levels of a snapshot that the filter includes, counted from `count`. The best
price is the first positive one of the whole list. -/
def keptSnapshot (f : LobFilter) (s : Side) (best : Option F64) :
    ℕ → List (String × String) → List (String × String)
  | _, [] => []
  | count, l :: ls =>
    if (parseLevel l).any fun e =>
        e.2.gt F64.zero && f.shouldInclude best best e.1 e.2 (s = .bid) count false then
      l :: keptSnapshot f s best (count + 1) ls
    else keptSnapshot f s best count ls

theorem keptSnapshot_sublist (f : LobFilter) (s : Side) (best : Option F64) (count : ℕ)
    (levels : List (String × String)) : (keptSnapshot f s best count levels).Sublist levels := by
  induction levels generalizing count with
  | nil => exact List.Sublist.refl _
  | cons l ls ih =>
    rw [keptSnapshot]
    split
    · exact (ih _).cons_cons l
    · exact (ih _).cons l

theorem length_keptSnapshot_maxLevel (n : ℕ) (s : Side) (best : Option F64) (count : ℕ)
    (levels : List (String × String)) :
    (keptSnapshot (.maxLevel n) s best count levels).length ≤ n - count := by
  induction levels generalizing count with
  | nil => simp [keptSnapshot]
  | cons l ls ih =>
    rw [keptSnapshot]
    split
    · rename_i hkept
      -- a positive level is kept only while the count is below `n`
      obtain ⟨e, -, he⟩ := Option.any_eq_true _ _ |>.mp hkept
      rw [Bool.and_eq_true, LobFilter.shouldInclude_maxLevel] at he
      have hlt : count < n := by simpa [F64.eq_zero_of_gt_zero he.1] using he.2
      have := ih (count + 1)
      rw [List.length_cons]
      omega
    · exact ih count

theorem filterSnapshot_loop (f : LobFilter) (bb ba : Option F64) (s : Side)
    (levels filtered : List (String × String)) (count : ℕ) :
    (levels.foldl (fun (filtered, count) level =>
      match parseLevel level with
      | some (price, amount) =>
        if amount.gt F64.zero
            && f.shouldInclude bb ba price amount (s = .bid) count false then
          (filtered ++ [level], count + 1)
        else (filtered, count)
      | none => (filtered, count)) (filtered, count)).1
    = filtered ++ keptSnapshot f s (if s = .bid then bb else ba) count levels := by
  induction levels generalizing filtered count with
  | nil => simp [keptSnapshot]
  | cons l ls ih =>
    rw [List.foldl_cons, keptSnapshot]
    cases hp : parseLevel l with
    | none => exact ih filtered count
    | some e =>
      obtain ⟨price, amount⟩ := e
      have hown : f.shouldInclude bb ba price amount (s = .bid) count false
          = f.shouldInclude (if s = .bid then bb else ba) (if s = .bid then bb else ba)
              price amount (s = .bid) count false := shouldInclude_own_side rfl
      simp only [Option.any_some, ← hown]
      by_cases hin : (amount.gt F64.zero
          && f.shouldInclude bb ba price amount (s = .bid) count false) = true
      · simp only [hin, if_true]
        rw [ih, List.append_assoc, List.singleton_append]
      · simp only [hin, if_false, Bool.false_eq_true]
        exact ih filtered count

/-- A side with a positive level has its best price from the message, and a side without one
keeps nothing, so the book before the snapshot does not matter. -/
theorem side_filterSnapshot (b : OrderBook) (ob : OrderBookData) (f : LobFilter) (s : Side) :
    (b.filterSnapshot ob f).side s
      = keptSnapshot f s (firstPositive (ob.side s)) 0 (ob.side s) := by
  have hloop : (b.filterSnapshot ob f).side s
      = keptSnapshot f s ((firstPositive (ob.side s)).or (b.toOrderBook.side s).best) 0
          (ob.side s) := by
    cases s
    · exact filterSnapshot_loop f _ _ .bid ob.bids [] 0
    · exact filterSnapshot_loop f _ _ .ask ob.asks [] 0
  rw [hloop]
  cases hfp : firstPositive (ob.side s) with
  | some p => rfl
  | none =>
    have hnone : ∀ l ∈ ob.side s, ∀ e, parseLevel l = some e → e.2.gt F64.zero = false := by
      intro l hl e he
      have := List.findSome?_eq_none_iff.mp hfp l hl
      simpa [he] using this
    have hempty : ∀ (best : Option F64) (count : ℕ) (ls : List (String × String)),
        (∀ l ∈ ls, ∀ e, parseLevel l = some e → e.2.gt F64.zero = false) →
        keptSnapshot f s best count ls = [] := by
      intro best count ls hls
      induction ls with
      | nil => rfl
      | cons l ls ih =>
        rw [keptSnapshot, ih fun l' h => hls l' (List.mem_cons_of_mem _ h)]
        cases hp : parseLevel l with
        | none => simp
        | some e => simp [hls l List.mem_cons_self e hp]
    rw [hempty _ _ _ hnone, hempty _ _ _ hnone]

/-! ## Single orders -/

/-- Rebuilding a price level changes no other level. -/
theorem getElem?_rebuildPriceLevel (b : OrderBook) {s s' : Side} {price q : F64}
    (h : (s', price) ≠ (s, q)) :
    ((b.rebuildPriceLevel s' price).toOrderBook.side s)[q]? = (b.toOrderBook.side s)[q]? := by
  unfold rebuildPriceLevel
  by_cases hs : s' = s
  · subst hs
    have hprice : price ≠ q := by
      rintro rfl
      exact h rfl
    simp only [Cryptomeria.OrderBook.side_setSide_self]
    split
    · simp [Std.ExtTreeMap.getElem?_erase, Std.LawfulEqCmp.compare_eq_iff_eq, hprice]
    · simp [Std.ExtTreeMap.getElem?_insert, Std.LawfulEqCmp.compare_eq_iff_eq, hprice]
  · rw [Cryptomeria.OrderBook.side_setSide_of_ne _ hs]

def rebuildAll (b : OrderBook) (places : List (Side × F64)) : OrderBook :=
  places.foldl (fun b place => b.rebuildPriceLevel place.1 place.2) b

@[simp] theorem orders_rebuildAll (b : OrderBook) (places : List (Side × F64)) :
    (b.rebuildAll places).orders = b.orders := by
  induction places generalizing b with
  | nil => rfl
  | cons place places ih => exact ih _

theorem snapshotDepth_rebuildAll (b : OrderBook) (places : List (Side × F64)) :
    (b.rebuildAll places).snapshotDepth = b.snapshotDepth := by
  induction places generalizing b with
  | nil => rfl
  | cons place places ih => exact ih _

theorem getElem?_rebuildAll_of_notMem (b : OrderBook) {places : List (Side × F64)} {q : F64}
    (h : (s, q) ∉ places) :
    ((b.rebuildAll places).toOrderBook.side s)[q]? = (b.toOrderBook.side s)[q]? := by
  induction places generalizing b with
  | nil => rfl
  | cons place places ih =>
    rw [List.mem_cons, not_or] at h
    exact (ih _ h.2).trans (getElem?_rebuildPriceLevel b (Ne.symm h.1))

/-- What an entry can do: which orders are tracked after it, and which levels are rebuilt. -/
inductive OrderEffect (b : OrderBook) (entry : OrderEntry) : OrderBook → Prop where
  | unreadable (h : parseF64 entry.price = none ∨ parseF64 entry.amount = none) :
      OrderEffect b entry b
  | unknown {price amount : F64} (hprice : parseF64 entry.price = some price)
      (hamount : parseF64 entry.amount = some amount) (hnone : b.orders[entry.id]? = none)
      (hpos : amount.gt F64.zero = false) : OrderEffect b entry b
  | added {price amount : F64} (hprice : parseF64 entry.price = some price)
      (hamount : parseF64 entry.amount = some amount) (hnone : b.orders[entry.id]? = none)
      (hpos : amount.gt F64.zero = true) :
      OrderEffect b entry ((b.insertOrder entry.id
        { price, size := amount, side := entry.side }).rebuildAll [(entry.side, price)])
  | removed {price amount : F64} {existing : OrderInfo}
      (hprice : parseF64 entry.price = some price) (hamount : parseF64 entry.amount = some amount)
      (hsome : b.orders[entry.id]? = some existing) (hzero : amount = F64.zero) :
      OrderEffect b entry ((b.removeOrder entry.id).rebuildAll [existing.place])
  | amended {price amount : F64} {existing : OrderInfo} {places : List (Side × F64)}
      (hprice : parseF64 entry.price = some price) (hamount : parseF64 entry.amount = some amount)
      (hsome : b.orders[entry.id]? = some existing) (hne : amount ≠ F64.zero)
      (hplaces : ∀ x, x ∈ places ↔ x = existing.place ∨ x = (entry.side, price)) :
      OrderEffect b entry ((b.insertOrder entry.id
        { price, size := amount, side := entry.side }).rebuildAll places)

theorem orderEffect (b : OrderBook) (entry : OrderEntry) :
    OrderEffect b entry (b.applyOrder entry) := by
  have hside : (if entry.orderType = 0 then Side.bid else Side.ask) = entry.side := rfl
  unfold applyOrder
  cases hprice : parseF64 entry.price with
  | none => exact .unreadable (Or.inl hprice)
  | some price =>
    cases hamount : parseF64 entry.amount with
    | none => exact .unreadable (Or.inr hamount)
    | some amount =>
      simp only [hside]
      cases horder : b.orders[entry.id]? with
      | none =>
        cases hpos : amount.gt F64.zero with
        | true => exact .added hprice hamount horder hpos
        | false => exact .unknown hprice hamount horder hpos
      | some existing =>
        cases hzero : amount.eq F64.zero with
        | true => exact .removed hprice hamount horder (F64.eq_zero.mp hzero)
        | false =>
          have hne : amount ≠ F64.zero := by
            intro h
            rw [F64.eq_zero.mpr h] at hzero
            simp at hzero
          simp only [Bool.false_eq_true, if_false]
          split
          · refine @OrderEffect.amended b entry price amount existing
              [existing.place, (entry.side, price)] hprice hamount horder hne ?_
            simp
          · rename_i hsame
            -- the order stays where it was, so one level is enough
            have hplace : existing.place = (entry.side, price) := by
              simp only [ne_eq, not_or, not_not] at hsame
              exact Prod.ext hsame.2 hsame.1
            refine @OrderEffect.amended b entry price amount existing [(entry.side, price)]
              hprice hamount horder hne ?_
            simp [hplace]

/-- The side and price that an entry names. -/
def place (entry : OrderEntry) : Option (Side × F64) :=
  (parseF64 entry.price).map fun price => (if entry.orderType = 0 then .bid else .ask, price)

theorem place_eq {entry : OrderEntry} {price : F64} (h : parseF64 entry.price = some price) :
    place entry = some (entry.side, price) := by
  rw [place, h]
  rfl

/-- An order entry changes the level it names and the one of the order it amends. -/
theorem getElem?_applyOrder (b : OrderBook) {entry : OrderEntry} {s : Side} {q : F64}
    (hnamed : place entry ≠ some (s, q))
    (htracked : ∀ info, b.orders[entry.id]? = some info → (info.side, info.price) ≠ (s, q)) :
    ((b.applyOrder entry).toOrderBook.side s)[q]? = (b.toOrderBook.side s)[q]? := by
  have hnew : ∀ price, parseF64 entry.price = some price → (s, q) ≠ (entry.side, price) := by
    rintro price hprice heq
    apply hnamed
    rw [place_eq hprice, heq]
  have heffect := orderEffect b entry
  generalize b.applyOrder entry = b' at heffect
  cases heffect with
  | unreadable | unknown => rfl
  | added hprice =>
    refine getElem?_rebuildAll_of_notMem _ ?_
    simpa using hnew _ hprice
  | removed _ _ hsome =>
    refine getElem?_rebuildAll_of_notMem _ ?_
    rw [List.mem_singleton]
    exact Ne.symm (htracked _ hsome)
  | amended hprice _ hsome _ hplaces =>
    refine getElem?_rebuildAll_of_notMem _ ?_
    rw [hplaces, not_or]
    exact ⟨Ne.symm (htracked _ hsome), hnew _ hprice⟩

/-- An order that is tracked afterwards was tracked before, or stands where the entry says. -/
theorem orders_applyOrder (b : OrderBook) {entry : OrderEntry} {id : ℕ} {info : OrderInfo}
    (h : (b.applyOrder entry).orders[id]? = some info) :
    b.orders[id]? = some info ∨ place entry = some (info.side, info.price) := by
  have hinsert : ∀ {price amount : F64}, parseF64 entry.price = some price →
      (b.orders.insert entry.id { price, size := amount, side := entry.side })[id]? = some info →
      b.orders[id]? = some info ∨ place entry = some (info.side, info.price) := by
    intro price amount hprice hstored
    rw [Std.ExtTreeMap.getElem?_insert] at hstored
    split at hstored
    · right
      rw [place_eq hprice, ← Option.some.inj hstored]
    · exact Or.inl hstored
  have heffect := orderEffect b entry
  generalize b.applyOrder entry = b' at heffect h
  cases heffect with
  | unreadable | unknown => exact Or.inl h
  | added hprice =>
    rw [orders_rebuildAll] at h
    exact hinsert hprice h
  | removed =>
    left
    rw [orders_rebuildAll, removeOrder, Std.ExtTreeMap.getElem?_erase] at h
    split at h
    · simp at h
    · exact h
  | amended hprice =>
    rw [orders_rebuildAll] at h
    exact hinsert hprice h

/-! ## Messages -/

theorem snapshotDepth_applyOrder (b : OrderBook) (entry : OrderEntry) :
    (b.applyOrder entry).snapshotDepth = b.snapshotDepth := by
  have heffect := orderEffect b entry
  generalize b.applyOrder entry = b' at heffect
  cases heffect with
  | unreadable | unknown => rfl
  | added | removed | amended => exact snapshotDepth_rebuildAll _ _

/-- No message changes the depth of the snapshots. -/
theorem snapshotDepth_processMsg (msg : BitstampWsMessage) (filter : Option LobFilter)
    (b : OrderBook) : (processMsg msg filter b).snapshotDepth = b.snapshotDepth := by
  unfold processMsg
  repeat' split
  all_goals first
    | rfl
    | exact snapshotDepth_applyOrder b _

theorem side_processMsg_snapshot {msg : BitstampWsMessage} {data : Value} {ob : OrderBookData}
    (hm : msg.messageType = .l2Snapshot) (hd : msg.data = some data)
    (hob : OrderBookData.ofValue data = some ob) (filter : Option LobFilter) (b : OrderBook)
    (s : Side) :
    (processMsg msg filter b).toOrderBook.side s
      = replay ∅ (stores (((match filter with
          | some f => keptSnapshot f s (firstPositive (ob.side s)) 0 (ob.side s)
          | none => ob.side s).take b.snapshotDepth).filterMap parseLevel)) := by
  cases filter with
  | none => simp only [processMsg, hd, hm, hob, side_applySnapshot]
  | some f => simp only [processMsg, hd, hm, hob, side_applySnapshot, side_filterSnapshot]

theorem side_processMsg_diff {msg : BitstampWsMessage} {data : Value} {channel : String}
    {ob : OrderBookData} (hm : msg.messageType = .l2Update) (hd : msg.data = some data)
    (hc : msg.channel = some channel) (hlive : channel.startsWith "live_orders_" = false)
    (hob : OrderBookData.ofValue data = some ob) (filter : Option LobFilter) (b : OrderBook)
    (s : Side) :
    (processMsg msg filter b).toOrderBook.side s
      = replay (b.toOrderBook.side s) (writes (letThrough true filter (b.toOrderBook.side s)
          ((ob.side s).filterMap parseLevel))) := by
  cases filter with
  | none =>
    simp only [processMsg, hd, hm, hc, hlive, hob, side_applyDiff, letThrough,
      Bool.false_eq_true, if_false]
  | some f =>
    simp only [processMsg, hd, hm, hc, hlive, hob, side_applyDiff, side_filterDiff,
      filterMap_filterDiffSide, letThrough, Bool.false_eq_true, if_false]

end OrderBook

end Bitstamp
end Cryptomeria
