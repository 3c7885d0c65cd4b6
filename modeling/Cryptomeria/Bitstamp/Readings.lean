import Cryptomeria.Exchange

/-!
# Two readings of a payload

`process_msg` chooses the type of a payload by the channel. `lob_levels` never looks at the channel:
it takes the arrays where they hold a level, and else the single order. Every field of both types
has a default, so a payload of one kind may be read as the other. `lobLevels_eq_applied_iff` says
where the two choices give the same levels.
-/

set_option autoImplicit false

namespace Cryptomeria
namespace Bitstamp

open WriteLog

/-- The levels of the arrays, bids first. -/
def OrderBookData.levels (ob : OrderBookData) : List (Side × LobLevel) :=
  ob.bids.map (fun (price, size) => (.bid, { price, size })) ++
    ob.asks.map (fun (price, size) => (.ask, { price, size }))

def OrderEntry.level (entry : OrderEntry) : Side × LobLevel :=
  (entry.side, { price := entry.price, size := entry.amount })

/-- A payload as one of the two types. -/
inductive Reading where
  | book (ob : OrderBookData)
  | order (entry : OrderEntry)

namespace Reading

def levels : Reading → List (Side × LobLevel)
  | book ob => ob.levels
  | order entry => [entry.level]

def applyTo (b : OrderBook) : Reading → OrderBook
  | book ob => b.applyDiff ob
  | order entry => b.applyOrder entry

/-- By the channel, as in `process_msg`. -/
def ofChannel (channel : String) (data : Value) : Option Reading :=
  if channel.startsWith "live_orders_" then (OrderEntry.ofValue data).map order
  else (OrderBookData.ofValue data).map book

/-- By the payload alone, as in `lob_levels`. -/
def ofPayload (data : Value) : Option Reading :=
  (((OrderBookData.ofValue data).filter fun ob => !ob.levels.isEmpty).map book).or
    ((OrderEntry.ofValue data).map order)

end Reading

/-- The levels that an update brings to the book where there is no filter. -/
def appliedLevels (msg : BitstampWsMessage) : List (Side × LobLevel) :=
  match msg.messageType, msg.channel, msg.data with
  | .l2Update, some channel, some data =>
    ((Reading.ofChannel channel data).map Reading.levels).getD []
  | _, _, _ => []

/-! ## What the two functions do -/

/-- Without a filter an update applies the reading that its channel tells, and does nothing else. -/
theorem processMsg_ofChannel {msg : BitstampWsMessage} {channel : String} {data : Value}
    (hm : msg.messageType = .l2Update) (hc : msg.channel = some channel)
    (hd : msg.data = some data) (b : OrderBook) :
    OrderBook.processMsg msg none b
      = ((Reading.ofChannel channel data).map (Reading.applyTo b)).getD b := by
  simp only [OrderBook.processMsg, hm, hc, hd, Reading.ofChannel]
  split
  · cases OrderEntry.ofValue data <;> rfl
  · cases OrderBookData.ofValue data <;> rfl

/-- The levels of the arrays of a side, as texts. -/
theorem filter_levels (ob : OrderBookData) (s : Side) :
    (ob.levels.filter fun l => l.1 = s).map (fun l => (l.2.price, l.2.size)) = ob.side s := by
  cases s <;>
    simp [OrderBookData.levels, OrderBookData.side, List.filter_map, Function.comp_def]

/-- A diff writes its levels to their sides, in order. -/
theorem side_applyTo_book (b : OrderBook) (ob : OrderBookData) (s : Side) :
    ((Reading.book ob).applyTo b).toOrderBook.side s
      = replay (b.toOrderBook.side s) (writes ((((Reading.book ob).levels.filter fun l =>
          l.1 = s).map fun l => (l.2.price, l.2.size)).filterMap parseLevel)) := by
  rw [Reading.applyTo, OrderBook.side_applyDiff, Reading.levels, filter_levels]

theorem levels_isEmpty (ob : OrderBookData) :
    (!ob.levels.isEmpty) = (!ob.bids.isEmpty || !ob.asks.isEmpty) := by
  obtain ⟨bids, asks, _, _⟩ := ob
  cases bids <;> cases asks <;> rfl

theorem lobLevels_eq {msg : BitstampWsMessage} {data : Value} (hd : msg.data = some data) :
    msg.lobLevels = ((Reading.ofPayload data).map Reading.levels).getD [] := by
  simp only [BitstampWsMessage.lobLevels, hd, Reading.ofPayload, levels_isEmpty]
  cases (OrderBookData.ofValue data).filter fun ob => !ob.bids.isEmpty || !ob.asks.isEmpty with
  | some ob => rfl
  | none => cases OrderEntry.ofValue data <;> rfl

/-! ## Where they agree -/

/-- The payload of a book channel holds a level, or it is no order at all. On the `live_orders`
channel it has no arrays of levels, unless they hold the order and nothing more. -/
def TellsChannel (channel : String) (data : Value) : Prop :=
  if channel.startsWith "live_orders_" then
    ∀ ob, OrderBookData.ofValue data = some ob → ob.levels ≠ [] →
      ∃ entry, OrderEntry.ofValue data = some entry ∧ ob.levels = [entry.level]
  else
    (∃ ob, OrderBookData.ofValue data = some ob ∧ ob.levels ≠ []) ∨ OrderEntry.ofValue data = none

theorem ofPayload_of_ne_nil {data : Value} {ob : OrderBookData}
    (hob : OrderBookData.ofValue data = some ob) (hne : ob.levels ≠ []) :
    Reading.ofPayload data = some (.book ob) := by
  simp [Reading.ofPayload, hob, Option.filter_some, hne]

theorem ofPayload_of_nil {data : Value}
    (h : ∀ ob, OrderBookData.ofValue data = some ob → ob.levels = []) :
    Reading.ofPayload data = (OrderEntry.ofValue data).map .order := by
  cases hob : OrderBookData.ofValue data with
  | none => simp [Reading.ofPayload, hob]
  | some ob => simp [Reading.ofPayload, hob, Option.filter_some, h ob hob]

/-- Both readings of a payload give the same levels if and only if it tells its channel. -/
theorem levels_ofPayload_iff (channel : String) (data : Value) :
    ((Reading.ofPayload data).map Reading.levels).getD []
        = ((Reading.ofChannel channel data).map Reading.levels).getD [] ↔
      TellsChannel channel data := by
  by_cases hheld : ∃ ob, OrderBookData.ofValue data = some ob ∧ ob.levels ≠ []
  · obtain ⟨ob, hob, hne⟩ := hheld
    rw [ofPayload_of_ne_nil hob hne, Reading.ofChannel, TellsChannel]
    split
    · simp only [hob, Option.some.injEq, forall_eq', Option.map_some, Option.getD_some,
        Reading.levels]
      cases OrderEntry.ofValue data with
      | none => simp [hne]
      | some entry => simp [hne, Reading.levels]
    · exact iff_of_true (by rw [hob]; rfl) (Or.inl ⟨ob, hob, hne⟩)
  · have hnil : ∀ ob, OrderBookData.ofValue data = some ob → ob.levels = [] :=
      fun ob hob => not_not.mp fun hne => hheld ⟨ob, hob, hne⟩
    rw [ofPayload_of_nil hnil, Reading.ofChannel, TellsChannel]
    split
    · exact iff_of_true rfl fun ob hob hne => absurd (hnil ob hob) hne
    · -- the arrays bring nothing to the book, so the rows have to be none as well
      have happlied : (((OrderBookData.ofValue data).map Reading.book).map Reading.levels).getD []
          = [] := by
        cases hob : OrderBookData.ofValue data with
        | none => rfl
        | some ob => exact hnil ob hob
      rw [happlied, or_iff_right hheld]
      cases OrderEntry.ofValue data with
      | none => simp
      | some entry => simp [Reading.levels]

/-- **When the persisted levels are the applied ones**: for every update, if and only if its
payload, if it has one, tells the channel. -/
theorem lobLevels_eq_applied_iff {msg : BitstampWsMessage} {channel : String}
    (hm : msg.messageType = .l2Update) (hc : msg.channel = some channel) :
    msg.lobLevels = appliedLevels msg ↔
      ∀ data, msg.data = some data → TellsChannel channel data := by
  cases hd : msg.data with
  | none =>
    have hsame : msg.lobLevels = appliedLevels msg := by
      simp [BitstampWsMessage.lobLevels, appliedLevels, hd]
    exact iff_of_true hsame fun _ h => by cases h
  | some data =>
    rw [lobLevels_eq hd, appliedLevels, hm, hc, hd]
    refine (levels_ofPayload_iff channel data).trans ⟨?_, fun h => h data rfl⟩
    rintro h _ ⟨⟩
    exact h

theorem lobLevels_eq_applied_iff_bothSides :
    (bookMsg "data" [("100", "2"), ("99", "0")] [("101", "1"), ("102", "3")]).lobLevels
      = appliedLevels
          (bookMsg "data" [("100", "2"), ("99", "0")] [("101", "1"), ("102", "3")]) := by
  refine (lobLevels_eq_applied_iff (messageType_bookMsg_data _ _) rfl).mpr fun data hdata => ?_
  obtain rfl := Option.some.inj hdata
  rw [TellsChannel, if_neg (by simp [startsWith_bookMsg])]
  exact Or.inl ⟨_, OrderBookData.ofValue_toValue _, by simp [OrderBookData.levels]⟩

/-- A diff without a level brings nothing to the book, and a bid without a price is persisted. -/
theorem row_without_level :
    ¬ ∀ (msg : BitstampWsMessage) (channel : String), msg.messageType = .l2Update →
      msg.channel = some channel → channel.startsWith "diff_order_book_" = true →
      msg.lobLevels = appliedLevels msg := by
  intro h
  have hrows := congrArg List.length
    (h (bookMsg "data" [] []) _ (messageType_bookMsg_data _ _) rfl startsWith_bookMsg.1)
  exact absurd hrows (by decide +kernel)

end Bitstamp
end Cryptomeria
