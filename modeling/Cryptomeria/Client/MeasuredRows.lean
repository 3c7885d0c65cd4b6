import Cryptomeria.Bitstamp.Readings
import Cryptomeria.Client.KrakenLevels

/-!
# The rows of a message and what they are measured from

Every row of `lob_levels` has the distance of its price from the best one. `persist_message` has no
book at hand: what it takes for the best price of a side is the first price that the message lists
there. Where the levels of a message are well-formed, this is the first price that the book takes
(`Quoted`).
-/

set_option autoImplicit false

namespace Cryptomeria

/-- How far a price is from the best one. -/
def Side.distance : Side → F64 → F64 → F64
  | .bid, best, price => best.sub price
  | .ask, best, price => price.sub best

/-! ## The rows of a message -/

/-- `best_diff` in `write_lob_level`, for a row of side, price and size. -/
def offset (best : Side → Option F64) (l : Side × F64 × F64) : F64 :=
  ((best l.1).map fun best => l.1.distance best l.2.1).getD F64.zero

def LobLevelRow.measured (row : LobLevelRow) : (Side × F64 × F64) × F64 := (row.level, row.bestDiff)

theorem map_measured_lobRows (instId exchange : String) (tsMs : ℕ) (action : String)
    (levels : List (Side × Okx.LobLevel)) (best : Side → Option F64) :
    (lobRows instId exchange tsMs action levels (best .bid) (best .ask)).map LobLevelRow.measured
      = (levels.map fun l => (l.1, Okx.rowOf l.2)).map fun l => (l, offset best l) := by
  rw [lobRows, List.map_map, List.map_map]
  refine List.map_congr_left fun pair _ => ?_
  obtain ⟨s, level⟩ := pair
  simp only [Function.comp_apply, writeLobLevel, LobLevelRow.measured, LobLevelRow.level,
    Okx.rowOf, offset]
  cases level.asF64 <;> cases s <;> rfl

/-- The rows that are in the table after a step and not before, and their `best_diff`. -/
def measuredRows (w w' : World) : List ((Side × F64 × F64) × F64) :=
  (w'.lobLevels.drop w.lobLevels.length).map LobLevelRow.measured

variable {cfg : Config} {stamp : Stamp}

theorem measuredRows_persistLob (hflush : stamp.flushOk = true) (w : World) (tsMs : ℕ)
    (action : String) (levels : List (Side × Okx.LobLevel)) (best : Side → Option F64) :
    measuredRows w (w.persistLob cfg stamp tsMs action levels (best .bid) (best .ask))
      = (levels.map fun l => (l.1, Okx.rowOf l.2)).map fun l => (l, offset best l) := by
  rw [measuredRows, World.persistLob_lobLevels hflush, List.drop_left, map_measured_lobRows]

namespace Okx

variable {msg : OkxWsMessage}

def rowLevels (msg : OkxWsMessage) : List (Side × F64 × F64) :=
  msg.lobLevels.map fun l => (l.1, rowOf l.2)

/-- What `persist_message` takes for the best price of a side. -/
def takenForBest (msg : OkxWsMessage) (s : Side) : Option F64 :=
  (msg.data.head?.bind LobData.ofValue).bind fun d => firstPrice (d.side s)

theorem measuredRows_persistMessage (hflush : stamp.flushOk = true)
    (h : msg.messageType = .l2Snapshot ∨ msg.messageType = .l2Update) (w : World) :
    measuredRows w (persistMessage cfg stamp msg w)
      = (rowLevels msg).map fun l => (l, offset (takenForBest msg) l) := by
  rcases h with h | h
  · have hread : msg.lobSnapshot = msg.data.head?.bind LobData.ofValue := by
      simp [OkxWsMessage.lobSnapshot, action_of_messageType.1 h]
    simp only [persistMessage, h, hread]
    exact measuredRows_persistLob hflush w _ _ _ (takenForBest msg)
  · have hread : msg.lobUpdate = msg.data.head?.bind LobData.ofValue := by
      simp [OkxWsMessage.lobUpdate, action_of_messageType.2 h]
    simp only [persistMessage, h, hread]
    exact measuredRows_persistLob hflush w _ _ _ (takenForBest msg)

end Okx

namespace Kraken

variable {msg : KrakenWsMessage}

def rowLevels (msg : KrakenWsMessage) : List (Side × F64 × F64) :=
  msg.lobLevels.map fun l => (l.1, Okx.rowOf (toOkxLevel l.2))

/-- What `persist_message` takes for the best price of a side. -/
def takenForBest (msg : KrakenWsMessage) (s : Side) : Option F64 :=
  (msg.data.head?.bind LobData.ofValue).bind fun d => firstPrice (d.side s)

theorem measuredRows_persistMessage (rfc3339 : String → Option ℤ) (hflush : stamp.flushOk = true)
    (h : msg.messageType = .l2Snapshot ∨ msg.messageType = .l2Update) (w : World) :
    measuredRows w (persistMessage rfc3339 cfg stamp msg w)
      = (rowLevels msg).map fun l => (l, offset (takenForBest msg) l) := by
  have hlevels : rowLevels msg
      = (msg.lobLevels.map fun l => (l.1, toOkxLevel l.2)).map fun l => (l.1, Okx.rowOf l.2) := by
    rw [rowLevels, List.map_map]
    rfl
  rw [hlevels]
  rcases h with h | h
  · obtain ⟨hchannel, htype⟩ := type_of_messageType.1 h
    have hread : msg.lobSnapshot = msg.data.head?.bind LobData.ofValue := by
      simp [KrakenWsMessage.lobSnapshot, hchannel, htype]
    simp only [persistMessage, h, hread]
    exact measuredRows_persistLob hflush w _ _ _ (takenForBest msg)
  · obtain ⟨hchannel, htype⟩ := type_of_messageType.2 h
    have hread : msg.lobUpdate = msg.data.head?.bind LobData.ofValue := by
      simp [KrakenWsMessage.lobUpdate, hchannel, htype]
    simp only [persistMessage, h, hread]
    exact measuredRows_persistLob hflush w _ _ _ (takenForBest msg)

end Kraken

namespace Bitstamp

variable {msg : BitstampWsMessage}

/-- A level as `persist_message` hands it over. -/
def LobLevel.toOkx (level : LobLevel) : Okx.LobLevel :=
  { price := level.price, size := level.size, count := "0", orders := "0" }

def rowLevels (msg : BitstampWsMessage) : List (Side × F64 × F64) :=
  msg.lobLevels.map fun l => (l.1, Okx.rowOf l.2.toOkx)

/-- What `persist_message` takes for the best price of a side. -/
def takenForBest (msg : BitstampWsMessage) (s : Side) : Option F64 :=
  (payload msg).bind fun ob => (ob.side s).head?.bind fun l => parseF64 l.1

theorem measuredRows_persistMessage (hflush : stamp.flushOk = true)
    (h : msg.messageType = .l2Snapshot ∨ msg.messageType = .l2Update) (w : World) :
    measuredRows w (persistMessage cfg stamp msg w)
      = (rowLevels msg).map fun l => (l, offset (takenForBest msg) l) := by
  have hlevels : rowLevels msg
      = (msg.lobLevels.map fun l => (l.1, l.2.toOkx)).map fun l => (l.1, Okx.rowOf l.2) := by
    rw [rowLevels, List.map_map]
    rfl
  rw [hlevels]
  rcases h with h | h
  · simp only [persistMessage, h]
    exact measuredRows_persistLob hflush w _ _ _ (takenForBest msg)
  · simp only [persistMessage, h]
    exact measuredRows_persistLob hflush w _ _ _ (takenForBest msg)

end Bitstamp

/-! ## Well-formed messages -/

/-- Levels that the derived reading and the book both take, at positive prices. -/
structure ReadByBoth {R : Type} (read : Value → Option R) (deliver : Value → Option (F64 × F64))
    (elements : List Value) (rows : List R) : Prop where
  derived : elements.mapM read = some rows
  delivered : ∀ v ∈ elements, ∃ e, deliver v = some e ∧ e.1.IsPos

/-- Either levels at positive prices and no order besides, or an order at a positive price and no
level besides. -/
inductive Bitstamp.WellFormedLob (msg : BitstampWsMessage) : Prop where
  | book (ob : OrderBookData) (hkind : kindOf msg = .snapshot ∨ kindOf msg = .update)
      (hob : payload msg = some ob)
      (hlevels : ∀ s, ∀ l ∈ ob.side s, ∃ e, parseLevel l = some e ∧ e.1.IsPos)
      (hno : ∀ entry, msg.data.bind OrderEntry.ofValue = some entry →
        parseF64 entry.price = none)
  | order (entry : OrderEntry) (price amount : F64) (horder : orderOf msg = some entry)
      (hprice : parseF64 entry.price = some price) (hpos : price.IsPos)
      (hamount : parseF64 entry.amount = some amount) (hge : amount.ge F64.zero = true)
      (hno : ∀ ob, payload msg = some ob → ob.levels = [])

/-- What the rows of a message are measured from, and that all numbers are numbers. -/
structure Quoted (entries : Side → List (F64 × F64)) (takenForBest : Side → Option F64)
    (rowLevels : List (Side × F64 × F64)) : Prop where
  first : ∀ s, takenForBest s = (entries s).head?.map Prod.fst
  positive : ∀ s, ∀ e ∈ entries s, e.1.IsPos
  finite : ∀ l ∈ rowLevels, ∃ a, l.2.1 = .fin a

section

variable {R : Type} {read : Value → Option R} {row : R → F64 × F64}
  {deliver : Value → Option (F64 × F64)} {elements : List Value} {rows : List R}

theorem mem_bothSides {levels : Side → List R} {l : Side × R} :
    l ∈ bothSides levels ↔ l.2 ∈ levels l.1 := by
  obtain ⟨s, r⟩ := l
  cases s <;> simp [bothSides]

/-- What the derived reading has is what the book takes. -/
theorem ReadByBoth.map_eq (h : ReadByBoth read deliver elements rows)
    (hagree : ∀ v r e, read v = some r → deliver v = some e → row r = e) :
    rows.map row = elements.filterMap deliver := by
  refine map_row_eq hagree h.derived fun v hv => ?_
  obtain ⟨e, he, -⟩ := h.delivered v hv
  rw [he]
  rfl

theorem ReadByBoth.positive (h : ReadByBoth read deliver elements rows) {e : F64 × F64}
    (he : e ∈ elements.filterMap deliver) : e.1.IsPos := by
  obtain ⟨v, hv, hdeliver⟩ := List.mem_filterMap.mp he
  obtain ⟨e', he', hpos⟩ := h.delivered v hv
  rw [Option.some.inj (hdeliver.symm.trans he')]
  exact hpos

/-- What holds of both arrays of a message. -/
theorem entries_of_readByBoth {elements : Side → List Value} {lists : Side → List R}
    {entries : Side → List (F64 × F64)}
    (hboth : ∀ s, ReadByBoth read deliver (elements s) (lists s))
    (hentries : ∀ s, entries s = (elements s).filterMap deliver)
    (hagree : ∀ v r e, read v = some r → deliver v = some e → row r = e) :
    (∀ s, (lists s).map row = entries s) ∧ ∀ s, ∀ e ∈ entries s, e.1.IsPos := by
  constructor
  · intro s
    rw [hentries]
    exact (hboth s).map_eq hagree
  · intro s e he
    rw [hentries] at he
    exact (hboth s).positive he

end

theorem F64.IsPos.exists_fin {a : F64} (h : a.IsPos) : ∃ q, a = .fin q := by
  obtain ⟨q, rfl, -⟩ := F64.isPos_iff.mp h
  exact ⟨q, rfl⟩

namespace Okx

variable {msg : OkxWsMessage}

/-- A positive price in a row is the one of the level. -/
theorem parseF64_price {level : LobLevel} (h : (rowOf level).1.IsPos) :
    parseF64 level.price = some (rowOf level).1 := by
  unfold rowOf LobLevel.asF64 at h ⊢
  cases hprice : parseF64 level.price with
  | none =>
    rw [hprice] at h
    exact absurd (show F64.zero.IsPos from h) (by decide)
  | some price =>
    cases hsize : parseF64 level.size with
    | none =>
      rw [hprice, hsize] at h
      exact absurd (show F64.zero.IsPos from h) (by decide)
    | some size => rfl

theorem quoted (h : msg.messageType = .l2Snapshot ∨ msg.messageType = .l2Update)
    {lists : Side → List LobLevel} (hlists : derivedLists msg = some lists)
    (hboth : ∀ s, ReadByBoth LobLevel.ofValue deliver (levelElements msg.data s) (lists s)) :
    Quoted (Okx.model.entries msg) (takenForBest msg) (rowLevels msg) := by
  obtain ⟨hrows, hpositive⟩ := entries_of_readByBoth hboth (entries_eq msg)
    fun _ _ _ hread he => rowOf_eq_of_deliver hread he
  refine ⟨fun s => ?_, hpositive, ?_⟩
  · obtain ⟨d, hd, rfl⟩ := Option.map_eq_some_iff.mp hlists
    rw [takenForBest, hd, ← hrows s, Option.bind_some, firstPrice]
    cases hside : d.side s with
    | nil => rfl
    | cons level rest =>
      have hmem : rowOf level ∈ Okx.model.entries msg s := by
        rw [← hrows s, hside]
        exact List.mem_cons_self
      exact parseF64_price (hpositive s _ hmem)
  · intro l hl
    rw [rowLevels, lobLevels_eq h, hlists] at hl
    obtain ⟨l', hl', rfl⟩ := List.mem_map.mp hl
    refine (hpositive l'.1 _ ?_).exists_fin
    rw [← hrows]
    exact List.mem_map_of_mem (mem_bothSides.mp hl')

theorem deliver_texts {price size : String} {p a : F64} (hprice : parseF64 price = some p)
    (hsize : parseF64 size = some a) :
    deliver (.array [.string price, .string size]) = some (p, a) := by
  show parseLevel [price, size] = some (p, a)
  simp [parseLevel, hprice, hsize]

end Okx

namespace Kraken

variable {msg : KrakenWsMessage}

/-- A row has numbers where the level has. -/
theorem exists_fin_rowOf {level : LobLevel} (h : level.price.IsPos) :
    ∃ a, (Okx.rowOf (toOkxLevel level)).1 = .fin a := by
  obtain ⟨p, hp, -⟩ := F64.isPos_iff.mp h
  simp only [Okx.rowOf, Okx.LobLevel.asF64, toOkxLevel, hp, parseF64_formatFixed]
  cases parseF64 (formatFixed 8 level.qty) with
  | none => exact ⟨0, rfl⟩
  | some qty => exact ⟨_, rfl⟩

theorem quoted (h : msg.messageType = .l2Snapshot ∨ msg.messageType = .l2Update)
    {lists : Side → List LobLevel} (hlists : derivedLists msg = some lists)
    (hboth : ∀ s, ReadByBoth LobLevel.ofValue deliver (levelElements msg.data s) (lists s)) :
    Quoted (Kraken.model.entries msg) (takenForBest msg) (rowLevels msg) := by
  obtain ⟨hrows, hpositive⟩ := entries_of_readByBoth hboth (entries_eq msg)
    fun _ _ _ hread he => rowOf_eq_of_deliver hread he
  refine ⟨fun s => ?_, hpositive, ?_⟩
  · obtain ⟨d, hd, rfl⟩ := Option.map_eq_some_iff.mp hlists
    rw [takenForBest, hd, ← hrows s, Option.bind_some, firstPrice]
    cases d.side s <;> rfl
  · intro l hl
    rw [rowLevels, lobLevels_eq h, hlists] at hl
    obtain ⟨l', hl', rfl⟩ := List.mem_map.mp hl
    apply exists_fin_rowOf
    refine hpositive l'.1 (rowOf l'.2) ?_
    rw [← hrows]
    exact List.mem_map_of_mem (mem_bothSides.mp hl')

end Kraken

namespace Bitstamp

variable {msg : BitstampWsMessage}

/-- A row has a number where the level has one or none at all. -/
theorem exists_fin_rowOf {level : LobLevel}
    (h : ∀ price, parseF64 level.price = some price → price.IsPos) :
    ∃ a, (Okx.rowOf level.toOkx).1 = .fin a := by
  simp only [Okx.rowOf, Okx.LobLevel.asF64, LobLevel.toOkx]
  cases hprice : parseF64 level.price with
  | none => exact ⟨0, rfl⟩
  | some price =>
    cases parseF64 level.size with
    | none => exact ⟨0, rfl⟩
    | some size => exact (h price hprice).exists_fin

theorem parseF64_of_parseLevel {l : String × String} {e : F64 × F64} (h : parseLevel l = some e) :
    parseF64 l.1 = some e.1 := by
  obtain ⟨price, hprice, h⟩ := Option.bind_eq_some_iff.mp h
  obtain ⟨amount, -, h⟩ := Option.bind_eq_some_iff.mp h
  rw [hprice, ← Option.some.inj h]

/-- Positive prices in the payload, as levels or as an order, give numbers in the rows. -/
theorem finite_rowLevels {data : Value} (hd : msg.data = some data)
    (hlevels : ∀ ob, OrderBookData.ofValue data = some ob → ∀ l ∈ ob.levels,
      ∀ price, parseF64 l.2.price = some price → price.IsPos)
    (horder : ∀ entry, OrderEntry.ofValue data = some entry →
      ∀ price, parseF64 entry.price = some price → price.IsPos) :
    ∀ l ∈ rowLevels msg, ∃ a, l.2.1 = .fin a := by
  intro l hl
  obtain ⟨l', hl', rfl⟩ := List.mem_map.mp hl
  refine exists_fin_rowOf ?_
  rw [lobLevels_eq hd] at hl'
  by_cases hheld : ∃ ob, OrderBookData.ofValue data = some ob ∧ ob.levels ≠ []
  · obtain ⟨ob, hob, hne⟩ := hheld
    rw [ofPayload_of_ne_nil hob hne] at hl'
    exact hlevels ob hob l' hl'
  · rw [ofPayload_of_nil fun ob hob => not_not.mp fun hne => hheld ⟨ob, hob, hne⟩] at hl'
    cases hentry : OrderEntry.ofValue data with
    | none =>
      rw [hentry] at hl'
      cases hl'
    | some entry =>
      rw [hentry] at hl'
      rw [List.mem_singleton.mp hl']
      exact horder entry hentry

theorem mem_side_of_mem_levels {ob : OrderBookData} {l : Side × LobLevel} (h : l ∈ ob.levels) :
    (l.2.price, l.2.size) ∈ ob.side l.1 := by
  rw [← filter_levels ob l.1]
  exact List.mem_map_of_mem (List.mem_filter.mpr ⟨h, by simp⟩)

theorem side_eq_nil {ob : OrderBookData} (h : ob.levels = []) (s : Side) : ob.side s = [] := by
  rw [← filter_levels ob s, h]
  rfl

theorem WellFormedLob.messageType (h : WellFormedLob msg) :
    msg.messageType = .l2Snapshot ∨ msg.messageType = .l2Update := by
  cases h with
  | book ob hkind =>
    rcases hkind with hk | hk
    · exact Or.inl (kindOf_eq_snapshot hk).1
    · exact Or.inr (kindOf_eq_update hk).1
  | order entry price amount horder =>
    exact Or.inr (kindOf_eq_order (kindOf_of_orderOf horder)).1

/-- A payload of levels that the book takes, at positive prices. -/
theorem quoted_levels {ob : OrderBookData} (hob : payload msg = some ob)
    (hlevels : ∀ s, ∀ l ∈ ob.side s, ∃ e, parseLevel l = some e ∧ e.1.IsPos)
    (hno : ∀ entry, msg.data.bind OrderEntry.ofValue = some entry →
      parseF64 entry.price = none) :
    Quoted (entries msg) (takenForBest msg) (rowLevels msg) := by
  obtain ⟨data, hd, hread⟩ := Option.bind_eq_some_iff.mp hob
  have hentries : ∀ s, entries msg s = (ob.side s).filterMap parseLevel := by
    intro s
    rw [entries, hob]
    rfl
  refine ⟨fun s => ?_, fun s e he => ?_, finite_rowLevels hd ?_ ?_⟩
  · rw [takenForBest, hob, hentries, Option.bind_some]
    cases hside : ob.side s with
    | nil => rfl
    | cons l rest =>
      obtain ⟨e, he, -⟩ := hlevels s l (by rw [hside]; exact List.mem_cons_self)
      rw [List.filterMap_cons_some he]
      exact parseF64_of_parseLevel he
  · rw [hentries] at he
    obtain ⟨l, hl, hparse⟩ := List.mem_filterMap.mp he
    obtain ⟨e', he', hpos⟩ := hlevels s l hl
    rw [Option.some.inj (hparse.symm.trans he')]
    exact hpos
  · intro ob' hob' l hl price hprice
    obtain rfl := Option.some.inj (hread.symm.trans hob')
    obtain ⟨e, he, hpos⟩ := hlevels l.1 _ (mem_side_of_mem_levels hl)
    have hparsed := parseF64_of_parseLevel he
    rw [Option.some.inj (hprice.symm.trans hparsed)]
    exact hpos
  · intro entry hentry price hprice
    rw [hd] at hno
    exact absurd (hprice.symm.trans (hno entry hentry)) (by simp)

/-- An order at a positive price, which brings no entries and measures nothing. -/
theorem quoted_order {entry : OrderEntry} {price : F64} (horder : orderOf msg = some entry)
    (hprice : parseF64 entry.price = some price) (hpos : price.IsPos)
    (hno : ∀ ob, payload msg = some ob → ob.levels = []) :
    Quoted (entries msg) (takenForBest msg) (rowLevels msg) := by
  have hk := kindOf_of_orderOf horder
  obtain ⟨-, -, data, -, -, hd⟩ := kindOf_eq_order hk
  rw [orderOf, if_pos hk, hd] at horder
  have hnone : ∀ s, entries msg s = [] ∧ takenForBest msg s = none := by
    intro s
    rw [entries, takenForBest]
    cases hob : payload msg with
    | none => exact ⟨rfl, rfl⟩
    | some ob =>
      have hside := side_eq_nil (hno ob hob) s
      simp [hside]
  refine ⟨fun s => ?_, fun s e he => ?_, finite_rowLevels hd ?_ ?_⟩
  · rw [(hnone s).1, (hnone s).2]
    rfl
  · rw [(hnone s).1] at he
    cases he
  · intro ob hob l hl
    rw [hno ob (by rw [payload, hd]; exact hob)] at hl
    cases hl
  · intro entry' hentry' price' hprice'
    obtain rfl := Option.some.inj (horder.symm.trans hentry')
    rw [Option.some.inj (hprice'.symm.trans hprice)]
    exact hpos

theorem WellFormedLob.quoted (h : WellFormedLob msg) :
    Quoted (entries msg) (takenForBest msg) (rowLevels msg) := by
  cases h with
  | book ob _ hob hlevels hno => exact quoted_levels hob hlevels hno
  | order entry price _ horder hprice hpos _ _ hno => exact quoted_order horder hprice hpos hno

end Bitstamp

end Cryptomeria
