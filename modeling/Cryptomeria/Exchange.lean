import Cryptomeria.Bitstamp.Steps
import Cryptomeria.Kraken.Lob
import Cryptomeria.Lob.Snapshot
import Cryptomeria.Okx.Lob

/-!
# The three books as models

`Exchange.model` puts the `process_msg` of each exchange behind the equations of `BookModel`. The
Bitstamp book is taken at a fixed snapshot depth, which no message changes.
-/

set_option autoImplicit false

namespace Cryptomeria

open WriteLog

/-! ## OKX and Kraken -/

def Okx.model : BookModel :=
  Lob.model parseLevel parseLevel parseLevels OkxWsMessage.data OkxWsMessage.action processMsg
    (fun _ _ _ => rfl) (fun _ _ h => h) (fun _ _ _ _ => rfl)

def Kraken.model : BookModel :=
  Lob.model some parseLevel parseLevels KrakenWsMessage.data KrakenWsMessage.msgType processMsg
    (fun _ _ _ => rfl)
    (fun l e h => by
      simp only [parseLevel] at h
      split at h
      · simp at h
      · exact h)
    (fun _ _ _ h => (parseLevel_of_mem_parseLevels h).symm)

/-! ## Bitstamp -/

namespace Bitstamp

/-- The arrays that a message carries. -/
def payload (msg : BitstampWsMessage) : Option OrderBookData := msg.data.bind OrderBookData.ofValue

/-- A snapshot or a diff needs arrays that can be read; an update of the `live_orders` channel is
a single order. -/
def kindOf (msg : BitstampWsMessage) : BookKind :=
  match msg.data, msg.messageType, msg.channel with
  | some data, .l2Snapshot, _ => if (OrderBookData.ofValue data).isSome then .snapshot else .idle
  | some data, .l2Update, some channel =>
    if channel.startsWith "live_orders_" then .order
    else if (OrderBookData.ofValue data).isSome then .update else .idle
  | _, _, _ => .idle

def entries (msg : BitstampWsMessage) (s : Side) : List (F64 × F64) :=
  ((payload msg).map fun ob => (ob.side s).filterMap parseLevel).getD []

/-- What a snapshot puts on a side of a book with this snapshot depth. -/
def snapshotOf (depth : ℕ) (msg : BitstampWsMessage) (filter : Option LobFilter) (s : Side) :
    Option (List (F64 × F64)) :=
  (payload msg).map fun ob =>
    ((match filter with
      | some f => OrderBook.keptSnapshot f s (OrderBook.firstPositive (ob.side s)) 0 (ob.side s)
      | none => ob.side s).take depth).filterMap parseLevel

theorem kindOf_eq_snapshot {msg : BitstampWsMessage} (h : kindOf msg = .snapshot) :
    msg.messageType = .l2Snapshot ∧
      ∃ data ob, msg.data = some data ∧ OrderBookData.ofValue data = some ob := by
  unfold kindOf at h
  split at h
  · rename_i data hd hm
    cases hob : OrderBookData.ofValue data with
    | none => simp [hob] at h
    | some ob => exact ⟨hm, data, ob, hd, hob⟩
  · split at h
    · simp at h
    · split at h <;> simp at h
  · simp at h

theorem payload_of_snapshot {msg : BitstampWsMessage} (h : kindOf msg = .snapshot) :
    ∃ ob, payload msg = some ob := by
  obtain ⟨-, data, ob, hd, hob⟩ := kindOf_eq_snapshot h
  exact ⟨ob, by rw [payload, hd]; exact hob⟩

theorem kindOf_eq_update {msg : BitstampWsMessage} (h : kindOf msg = .update) :
    msg.messageType = .l2Update ∧ ∃ channel data ob, msg.channel = some channel ∧
      channel.startsWith "live_orders_" = false ∧ msg.data = some data ∧
      OrderBookData.ofValue data = some ob := by
  unfold kindOf at h
  split at h
  · split at h <;> simp at h
  · rename_i data channel hd hm hc
    cases hlive : channel.startsWith "live_orders_" with
    | true => rw [if_pos hlive] at h; simp at h
    | false =>
      rw [if_neg (by simp [hlive])] at h
      cases hob : OrderBookData.ofValue data with
      | none => simp [hob] at h
      | some ob => exact ⟨hm, channel, data, ob, hc, hlive, hd, hob⟩
  · simp at h

theorem payload_of_update {msg : BitstampWsMessage} (h : kindOf msg = .update) :
    ∃ ob, payload msg = some ob := by
  obtain ⟨-, -, data, ob, -, -, hd, hob⟩ := kindOf_eq_update h
  exact ⟨ob, by rw [payload, hd]; exact hob⟩

theorem kindOf_eq_order {msg : BitstampWsMessage} (h : kindOf msg = .order) :
    msg.messageType = .l2Update ∧ ∃ channel data, msg.channel = some channel ∧
      channel.startsWith "live_orders_" = true ∧ msg.data = some data := by
  unfold kindOf at h
  split at h
  · split at h <;> simp at h
  · rename_i data channel hd hm hc
    cases hlive : channel.startsWith "live_orders_" with
    | true => exact ⟨hm, channel, data, hc, hlive, hd⟩
    | false =>
      rw [if_neg (by simp [hlive])] at h
      split at h <;> simp at h
  · simp at h

theorem kindOf_of_arrays {msg : BitstampWsMessage} {data : Value} {channel : String}
    (hm : msg.messageType = .l2Update) (hc : msg.channel = some channel)
    (hlive : channel.startsWith "live_orders_" = false) (hd : msg.data = some data)
    (hob : (OrderBookData.ofValue data).isSome = true) : kindOf msg = .update := by
  simp only [kindOf, hm, hc, hlive, hd, hob, Bool.false_eq_true, if_false, if_true]

/-! The messages of the diff channel. -/

theorem startsWith_bookMsg :
    "diff_order_book_btcusd".startsWith "diff_order_book_" = true ∧
      "diff_order_book_btcusd".startsWith "live_orders_" = false := by
  decide +kernel

theorem messageType_bookMsg_data (bids asks : List (String × String)) :
    (bookMsg "data" bids asks).messageType = .l2Update := by
  simp [bookMsg, BitstampWsMessage.messageType, startsWith_bookMsg]

theorem kindOf_bookMsg_data (bids asks : List (String × String)) :
    kindOf (bookMsg "data" bids asks) = .update := by
  refine kindOf_of_arrays (messageType_bookMsg_data bids asks) rfl startsWith_bookMsg.2 rfl ?_
  rw [OrderBookData.ofValue_toValue]
  rfl

theorem kindOf_bookMsg_snapshot (bids asks : List (String × String)) :
    kindOf (bookMsg "snapshot" bids asks) = .snapshot := by
  have hm : (bookMsg "snapshot" bids asks).messageType = .l2Snapshot := by
    simp [bookMsg, BitstampWsMessage.messageType]
  have hd : (bookMsg "snapshot" bids asks).data = some (OrderBookData.toValue { bids, asks }) := rfl
  simp only [kindOf, hm, hd, OrderBookData.ofValue_toValue, Option.isSome_some, if_true]

/-- The entry of a single order. -/
def orderOf (msg : BitstampWsMessage) : Option OrderEntry :=
  if kindOf msg = .order then msg.data.bind OrderEntry.ofValue else none

theorem kindOf_of_orderOf {msg : BitstampWsMessage} {entry : OrderEntry}
    (h : orderOf msg = some entry) : kindOf msg = .order := by
  unfold orderOf at h
  split at h
  · assumption
  · simp at h

/-- The filter, if there is one, lets the entry through. -/
def OrderBook.entryPasses (b : OrderBook) (filter : Option LobFilter) (entry : OrderEntry) : Bool :=
  filter.all fun f => (b.filterOrderEntry entry f).isSome

theorem OrderBook.eq_of_filterOrderEntry {b : OrderBook} {entry e : OrderEntry} {f : LobFilter}
    (h : b.filterOrderEntry entry f = some e) : e = entry := by
  simp only [filterOrderEntry, Option.bind_eq_bind, Option.bind_eq_some_iff,
    Option.ite_none_right_eq_some, Option.some.injEq] at h
  obtain ⟨_, -, _, -, -, he⟩ := h
  exact he.symm

/-- A single order is applied if it can be read and the filter lets it through. -/
theorem processMsg_of_kind_order {msg : BitstampWsMessage} (h : kindOf msg = .order)
    (filter : Option LobFilter) (b : OrderBook) :
    OrderBook.processMsg msg filter b
      = ((orderOf msg).filter (b.entryPasses filter)).elim b b.applyOrder := by
  obtain ⟨hm, channel, data, hc, hlive, hd⟩ := kindOf_eq_order h
  rw [orderOf, if_pos h]
  simp only [OrderBook.processMsg, hd, hm, hc, hlive, if_true, Option.bind_some]
  cases OrderEntry.ofValue data with
  | none => rfl
  | some entry =>
    cases filter with
    | none => rfl
    | some f =>
      cases he : b.filterOrderEntry entry f with
      | none => simp [Option.filter_some, OrderBook.entryPasses, he]
      | some e =>
        rw [OrderBook.eq_of_filterOrderEntry he] at he ⊢
        simp [Option.filter_some, OrderBook.entryPasses, he]

theorem processMsg_of_order {msg : BitstampWsMessage} (h : kindOf msg = .order) (b : OrderBook) :
    OrderBook.processMsg msg none b = ((orderOf msg).map b.applyOrder).getD b := by
  rw [processMsg_of_kind_order h]
  cases orderOf msg <;> rfl

theorem processMsg_of_idle {msg : BitstampWsMessage} (h : kindOf msg = .idle)
    (filter : Option LobFilter) (b : OrderBook) : OrderBook.processMsg msg filter b = b := by
  unfold kindOf at h
  unfold OrderBook.processMsg
  cases hd : msg.data with
  | none => rfl
  | some data =>
    cases hm : msg.messageType with
    | l2Snapshot =>
      cases hob : OrderBookData.ofValue data with
      | none => simp only [hob]
      | some ob => simp [hd, hm, hob] at h
    | l2Update =>
      cases hc : msg.channel with
      | none => rfl
      | some channel =>
        simp only [hd, hm, hc] at h
        cases hlive : channel.startsWith "live_orders_" with
        | true => rw [if_pos hlive] at h; simp at h
        | false =>
          cases hob : OrderBookData.ofValue data with
          | none => simp only [hob, hlive, Bool.false_eq_true, if_false]
          | some ob => simp [hlive, hob] at h
    | trade => rfl
    | event => rfl
    | unknown => rfl

/-- Snapshots clear the tracked orders, and only single orders change them otherwise. -/
theorem orders_processMsg {msg : BitstampWsMessage} (hk : kindOf msg ≠ .order)
    (filter : Option LobFilter) (b : OrderBook) :
    (OrderBook.processMsg msg filter b).orders
      = if kindOf msg = .snapshot then ∅ else b.orders := by
  cases hkind : kindOf msg with
  | snapshot =>
    obtain ⟨hm, data, ob, hd, hob⟩ := kindOf_eq_snapshot hkind
    cases filter <;> simp [OrderBook.processMsg, hd, hm, hob, OrderBook.applySnapshot]
  | update =>
    obtain ⟨hm, channel, data, ob, hc, hlive, hd, hob⟩ := kindOf_eq_update hkind
    cases filter <;> simp [OrderBook.processMsg, hd, hm, hc, hlive, hob, OrderBook.applyDiff]
  | order => exact absurd hkind hk
  | idle =>
    rw [processMsg_of_idle hkind]
    rfl

/-- The Bitstamp book at snapshot depth `depth`. -/
def model (depth : ℕ) : BookModel where
  Msg := BitstampWsMessage
  Book := { b : OrderBook // b.snapshotDepth = depth }
  new := ⟨OrderBook.withSnapshotDepth depth, rfl⟩
  side b s := b.1.toOrderBook.side s
  processMsg msg filter b :=
    ⟨OrderBook.processMsg msg filter b.1,
      (OrderBook.snapshotDepth_processMsg msg filter b.1).trans b.2⟩
  kind := kindOf
  entries := entries
  blank msg s := (payload msg).all fun ob => (ob.side s).isEmpty
  fits msg := ∀ ob ∈ payload msg, ∀ s, (ob.side s).length ≤ depth
  grow := true
  snapshot := snapshotOf depth
  side_new s := by cases s <;> rfl
  side_idle msg filter b s h :=
    congrArg (fun b : OrderBook => b.toOrderBook.side s) (processMsg_of_idle h filter b.1)
  side_update msg filter b s h := by
    obtain ⟨hm, channel, data, ob, hc, hlive, hd, hob⟩ := kindOf_eq_update h
    have hp : payload msg = some ob := by rw [payload, hd]; exact hob
    rw [OrderBook.side_processMsg_diff hm hd hc hlive hob, entries, hp]
    rfl
  side_snapshot msg filter b s h := by
    obtain ⟨hm, data, ob, hd, hob⟩ := kindOf_eq_snapshot h
    have hp : payload msg = some ob := by rw [payload, hd]; exact hob
    rw [OrderBook.side_processMsg_snapshot hm hd hob, snapshotOf, hp, b.2]
    rfl
  snapshot_unfiltered msg s h hfits := by
    obtain ⟨ob, hp⟩ := payload_of_snapshot h
    left
    simp only [snapshotOf, entries, hp, Option.map_some, Option.getD_some,
      List.take_of_length_le (hfits ob hp s)]
  snapshot_subset msg f s es h hes := by
    obtain ⟨ob, hp, rfl⟩ := Option.map_eq_some_iff.mp hes
    rw [entries, hp]
    exact List.filterMap_subset _ fun l hl =>
      (OrderBook.keptSnapshot_sublist f s _ 0 _).subset (List.mem_of_mem_take hl)
  snapshot_maxLevel_length msg n s es h hes := by
    obtain ⟨ob, hp, rfl⟩ := Option.map_eq_some_iff.mp hes
    refine (List.length_filterMap_le _ _).trans ?_
    refine (List.length_take_le' _ _).trans ?_
    exact OrderBook.length_keptSnapshot_maxLevel n s _ 0 _
  snapshot_maxLevel msg n s h hnone := by
    obtain ⟨ob, hp⟩ := payload_of_snapshot h
    simp [snapshotOf, hp] at hnone
  snapshot_maxLevelPct msg pct ar s h hnone := by
    obtain ⟨ob, hp⟩ := payload_of_snapshot h
    simp [snapshotOf, hp] at hnone

end Bitstamp

/-! ## All of them -/

inductive Exchange where
  | okx
  | kraken
  | bitstamp (snapshotDepth : ℕ)
deriving DecidableEq

def Exchange.model : Exchange → BookModel
  | okx => Okx.model
  | kraken => Kraken.model
  | bitstamp depth => Bitstamp.model depth

instance : (x : Exchange) → (msg : x.model.Msg) → Decidable (x.model.fits msg)
  | .okx, _ => inferInstanceAs (Decidable True)
  | .kraken, _ => inferInstanceAs (Decidable True)
  | .bitstamp depth, msg => inferInstanceAs (Decidable
      (∀ ob ∈ Bitstamp.payload msg, ∀ s, (Bitstamp.OrderBookData.side ob s).length ≤ depth))

end Cryptomeria
