import Cryptomeria.Client.Venue
import Cryptomeria.Lob.History

/-!
# What is persisted and what is applied

A book message of OKX or Kraken is read twice. The book takes the levels out of the JSON value one
by one and skips what it cannot read. `persist_message` deserialises the whole data element, so one
bad level is the end of all of them, and then writes zeros for a level whose numbers it cannot
read. `persisted_eq_applied_iff` says for which messages the two come to the same.
-/

set_option autoImplicit false

namespace Cryptomeria

/-! ## Two readings of a list of levels -/

/-- The array under a key. -/
def Value.elements (d : Value) (key : String) : List Value :=
  ((d.get key).bind Value.asArray).getD []

section Readings

variable {R : Type} {read : Value → Option R} {row : R → F64 × F64}
  {deliver : Value → Option (F64 × F64)}

theorem length_mapM {vs : List Value} {rs : List R} (h : vs.mapM read = some rs) :
    rs.length = vs.length := by
  induction vs generalizing rs with
  | nil => rw [← Option.some.inj h]; rfl
  | cons v vs ih =>
    rw [List.mapM_cons] at h
    obtain ⟨r, -, h⟩ := Option.bind_eq_some_iff.mp h
    obtain ⟨tail, htail, h⟩ := Option.bind_eq_some_iff.mp h
    rw [← Option.some.inj h, List.length_cons, List.length_cons, ih htail]

/-- Where the book takes every element, the rows are what it takes. -/
theorem map_row_eq (hagree : ∀ v r e, read v = some r → deliver v = some e → row r = e)
    {vs : List Value} {rs : List R} (h : vs.mapM read = some rs)
    (hall : ∀ v ∈ vs, (deliver v).isSome) : rs.map row = vs.filterMap deliver := by
  induction vs generalizing rs with
  | nil => rw [← Option.some.inj h]; rfl
  | cons v vs ih =>
    rw [List.mapM_cons] at h
    obtain ⟨r, hr, h⟩ := Option.bind_eq_some_iff.mp h
    obtain ⟨tail, htail, h⟩ := Option.bind_eq_some_iff.mp h
    obtain ⟨hv, hvs⟩ := List.forall_mem_cons.mp hall
    obtain ⟨e, he⟩ := Option.isSome_iff_exists.mp hv
    rw [← Option.some.inj h, List.map_cons, List.filterMap_cons, he, ih htail hvs,
      hagree v r e hr he]

end Readings

/-- Both sides of a message, bids first. -/
def bothSides {α : Type} (levels : Side → List α) : List (Side × α) :=
  (levels .bid).map (Prod.mk .bid) ++ (levels .ask).map (Prod.mk .ask)

theorem map_bothSides {α β : Type} (f : α → β) (levels : Side → List α) :
    (bothSides levels).map (fun (s, a) => (s, f a)) = bothSides fun s => (levels s).map f := by
  simp [bothSides, Function.comp_def]

theorem bothSides_eq_nil {α : Type} {levels : Side → List α} :
    bothSides levels = [] ↔ ∀ s, levels s = [] := by
  simp only [bothSides, List.append_eq_nil_iff, List.map_eq_nil_iff]
  constructor
  · rintro ⟨hb, ha⟩ s
    cases s
    · exact hb
    · exact ha
  · intro h
    exact ⟨h .bid, h .ask⟩

/-- The derived reading of the element fails and nothing of it is taken, or it succeeds and every
level in it is taken. `lists` are the lists of the derived reading, `elements` what stands in the
JSON value. -/
def SameLevels {R : Type} (lists : Option (Side → List R)) (elements : Side → List Value)
    (deliver : Value → Option (F64 × F64)) : Prop :=
  match lists with
  | none => ∀ s, ∀ v ∈ elements s, deliver v = none
  | some rows => (∀ s, ∀ v ∈ elements s, (deliver v).isSome) ∧ ∀ s, elements s = [] → rows s = []

theorem rows_eq_iff {R : Type} {read : Value → Option R} {row : R → F64 × F64}
    {deliver : Value → Option (F64 × F64)} {lists : Option (Side → List R)}
    {elements : Side → List Value}
    (hagree : ∀ v r e, read v = some r → deliver v = some e → row r = e)
    (hlists : ∀ rows, lists = some rows →
      (∀ s, (elements s).mapM read = some (rows s)) ∨ ∀ s, elements s = []) :
    bothSides (fun s => ((lists.map fun rows => rows s).getD []).map row)
        = bothSides (fun s => (elements s).filterMap deliver) ↔
      SameLevels lists elements deliver := by
  cases lists with
  | none =>
    have hnil : bothSides (fun s => (([] : List R)).map row) = [] := rfl
    simp only [Option.map_none, Option.getD_none, SameLevels]
    rw [hnil, eq_comm, bothSides_eq_nil]
    simp only [List.filterMap_eq_nil_iff]
  | some rows =>
    simp only [Option.map_some, Option.getD_some, SameLevels]
    rcases hlists rows rfl with hread | hempty
    · have hlen : ∀ s, (rows s).length = (elements s).length := fun s => length_mapM (hread s)
      constructor
      · intro h
        have htotal := congrArg List.length h
        simp only [bothSides, List.length_append, List.length_map, hlen] at htotal
        have hbid := List.length_filterMap_le deliver (elements .bid)
        have hask := List.length_filterMap_le deliver (elements .ask)
        have hall : ∀ s, ((elements s).filterMap deliver).length = (elements s).length := by
          intro s
          cases s <;> omega
        refine ⟨fun s => List.filterMap_length_eq_length.mp (hall s), ?_⟩
        intro s hs
        have hzero := hlen s
        rw [hs] at hzero
        exact List.length_eq_zero_iff.mp hzero
      · rintro ⟨hall, -⟩
        exact congrArg bothSides (funext fun s => map_row_eq hagree (hread s) (hall s))
    · -- a positional array: nothing is taken from it
      simp only [hempty, List.filterMap_nil, List.not_mem_nil, false_implies, implies_true,
        true_and, true_implies]
      rw [show bothSides (fun _ => ([] : List (F64 × F64))) = [] from rfl, bothSides_eq_nil]
      simp only [List.map_eq_nil_iff]

/-! ## The data element -/

/-- The levels of a side in the first data element. -/
def levelElements (data : List Value) (s : Side) : List Value :=
  (data.head?.map fun d => d.elements s.key).getD []

/-- A field of a list type, read from an object, holds what is in the array under its key. -/
theorem mapM_elements {R : Type} {read : Value → Option R} {fields : List (String × Value)}
    {key : String} {rs : List R}
    (h : Value.fieldOr [] (Value.readVec read) (fields.lookup key) = some rs) :
    ((Value.object fields).elements key).mapM read = some rs := by
  rw [Value.elements, Value.get]
  cases hv : fields.lookup key with
  | none =>
    rw [hv] at h
    simpa [Value.fieldOr] using h
  | some v =>
    rw [hv] at h
    cases v with
    | array elems => exact h
    | _ => simp [Value.fieldOr, Value.readVec] at h

/-- What the book applies of a level that it reads with `deliver`: a snapshot ignores sizes that
are not positive. -/
def applies (deliver : Value → Option (F64 × F64)) (isSnapshot : Bool) (v : Value) :
    Option (F64 × F64) :=
  (deliver v).filter fun e => !isSnapshot || e.2.gt F64.zero

/-- The levels of a message that the book applies, from the JSON value. -/
theorem counted_eq {x : Exchange} {msg : x.model.Msg} {data : List Value}
    {deliver : Value → Option (F64 × F64)} {isSnapshot : Bool} {s : Side}
    (hentries : x.model.entries msg s = (levelElements data s).filterMap deliver)
    (hlisted : x.listed msg s = x.model.entries msg s)
    (hkind : x.model.kind msg =
      if data.head?.isNone then .idle else if isSnapshot then .snapshot else .update) :
    x.counted msg s = (levelElements data s).filterMap (applies deliver isSnapshot) := by
  have hfilter : (levelElements data s).filterMap (applies deliver isSnapshot)
      = (x.model.entries msg s).filter fun e => !isSnapshot || e.2.gt F64.zero := by
    rw [hentries, List.filter_filterMap]
    rfl
  rw [hfilter]
  cases hd : data.head? with
  | none =>
    rw [hd] at hkind
    rw [Exchange.counted_idle hkind, hentries, levelElements, hd]
    rfl
  | some d =>
    rw [hd] at hkind
    cases isSnapshot with
    | true =>
      rw [Exchange.counted_snapshot hkind, hlisted]
      simp
    | false =>
      rw [Exchange.counted_update hkind]
      simp

def LobLevelRow.level (row : LobLevelRow) : Side × F64 × F64 := (row.side, row.price, row.size)

/-! ## OKX -/

namespace Okx

def LobData.side (d : LobData) : Side → List LobLevel
  | .bid => d.bids
  | .ask => d.asks

/-- What the book takes of a level. -/
def deliver (v : Value) : Option (F64 × F64) :=
  (v.asArray.map fun a => a.filterMap Value.asStr).bind parseLevel

/-- Price and size as `write_lob_level` writes them. -/
def rowOf (level : LobLevel) : F64 × F64 :=
  (level.asF64.map fun (price, size, _, _) => (price, size)).getD (F64.zero, F64.zero)

theorem map_level_lobRows (instId exchange : String) (tsMs : ℕ) (action : String)
    (levels : List (Side × LobLevel)) (bestBid bestAsk : Option F64) :
    (lobRows instId exchange tsMs action levels bestBid bestAsk).map LobLevelRow.level
      = levels.map fun (s, level) => (s, rowOf level) := by
  rw [lobRows, List.map_map]
  refine List.map_congr_left fun pair _ => ?_
  obtain ⟨s, level⟩ := pair
  simp only [Function.comp_apply, writeLobLevel, LobLevelRow.level, rowOf]
  cases level.asF64 <;> rfl

theorem entries_eq (msg : OkxWsMessage) (s : Side) :
    Okx.model.entries msg s = (levelElements msg.data s).filterMap deliver := by
  show (Lob.levelsOf OkxWsMessage.data parseLevels msg s).filterMap parseLevel = _
  unfold Lob.levelsOf levelElements
  cases hd : msg.data.head? with
  | none => rfl
  | some d =>
    simp only [Option.map_some, Option.getD_some, parseLevels, Value.elements]
    cases (d.get s.key).bind Value.asArray with
    | none => rfl
    | some arr =>
      simp only [Option.map_some, Option.getD_some, List.filterMap_filterMap]
      rfl

theorem ofValue_array {a b : Value} {rest : List Value} {level : LobLevel}
    (h : LobLevel.ofValue (.array (a :: b :: rest)) = some level) :
    a.asStr = some level.price ∧ b.asStr = some level.size := by
  simp only [LobLevel.ofValue, Value.structFields, List.length_cons, List.length_nil] at h
  split at h
  · simp only [List.range, List.range.loop, List.map_cons,
      List.map_nil, Option.bind_eq_bind, Option.bind_some, List.getElem?_cons_zero,
      List.getElem?_cons_succ, Value.fieldOr, Value.readString, Option.bind_eq_some_iff,
      Option.pure_def, Option.some_inj] at h
    obtain ⟨price, hprice, size, hsize, _, _, _, _, rfl⟩ := h
    exact ⟨hprice, hsize⟩
  · simp at h

/-- A readable level has the same price and size on both paths. -/
theorem rowOf_eq_of_deliver {v : Value} {level : LobLevel} {e : F64 × F64}
    (hread : LobLevel.ofValue v = some level) (he : deliver v = some e) : rowOf level = e := by
  cases v with
  | array elems =>
    match elems with
    | [] => simp [deliver, Value.asArray, parseLevel] at he
    | [a] => cases a <;> simp [deliver, Value.asArray, Value.asStr, parseLevel] at he
    | a :: b :: rest =>
      obtain ⟨hprice, hsize⟩ := ofValue_array hread
      simp only [deliver, Value.asArray, Option.map_some, Option.bind_some, List.filterMap_cons,
        hprice, hsize, parseLevel, List.getElem?_cons_zero, List.getElem?_cons_succ,
        Option.bind_eq_bind, Option.bind_eq_some_iff, Option.pure_def, Option.some_inj] at he
      obtain ⟨price, hp, size, hs, rfl⟩ := he
      simp [rowOf, LobLevel.asF64, hp, hs]
  | _ => simp [deliver, Value.asArray] at he

variable {msg : OkxWsMessage}

/-- The derived lists of the first data element. -/
def derivedLists (msg : OkxWsMessage) : Option (Side → List LobLevel) :=
  (msg.data.head?.bind LobData.ofValue).map LobData.side

theorem action_of_messageType :
    (msg.messageType = .l2Snapshot → msg.action = some "snapshot") ∧
      (msg.messageType = .l2Update → msg.action = some "update") := by
  unfold OkxWsMessage.messageType
  constructor <;>
  · intro h
    repeat' split at h
    all_goals first
      | assumption
      | simp at h

theorem lobLevels_eq (h : msg.messageType = .l2Snapshot ∨ msg.messageType = .l2Update) :
    msg.lobLevels = bothSides fun s => ((derivedLists msg).map fun rows => rows s).getD [] := by
  have hread : msg.lobSnapshot.or msg.lobUpdate = msg.data.head?.bind LobData.ofValue := by
    rcases h with h | h
    · have haction := action_of_messageType.1 h
      simp [OkxWsMessage.lobSnapshot, OkxWsMessage.lobUpdate, haction]
    · have haction := action_of_messageType.2 h
      simp [OkxWsMessage.lobSnapshot, OkxWsMessage.lobUpdate, haction]
  rw [OkxWsMessage.lobLevels, hread, derivedLists]
  cases msg.data.head?.bind LobData.ofValue with
  | none => rfl
  | some d => rfl

theorem kind_eq (h : msg.messageType = .l2Snapshot ∨ msg.messageType = .l2Update) :
    Exchange.okx.model.kind msg =
      if msg.data.head?.isNone then .idle
      else if decide (msg.messageType = .l2Snapshot) then .snapshot else .update := by
  show Lob.kindOf OkxWsMessage.data OkxWsMessage.action msg = _
  rcases h with h | h
  · cases hd : msg.data.head? <;> simp [Lob.kindOf, hd, h, action_of_messageType.1 h]
  · cases hd : msg.data.head? <;> simp [Lob.kindOf, hd, h, action_of_messageType.2 h]

/-- From an object the derived lists are read out of the arrays. -/
theorem mapM_derivedLists_object {rows : Side → List LobLevel} {fields : List (String × Value)}
    (hobject : msg.data.head? = some (.object fields)) (h : derivedLists msg = some rows)
    (s : Side) : (levelElements msg.data s).mapM LobLevel.ofValue = some (rows s) := by
  obtain ⟨d, hd, rfl⟩ := Option.map_eq_some_iff.mp h
  obtain ⟨v, hv, hread⟩ := Option.bind_eq_some_iff.mp hd
  obtain rfl : v = .object fields := Option.some.inj (hv.symm.trans hobject)
  simp only [levelElements, hv, Option.map_some, Option.getD_some]
  simp only [LobData.ofValue, Value.structFields, List.map_cons, List.map_nil,
    Option.bind_eq_bind, Option.bind_some, Option.bind_eq_some_iff, Option.pure_def,
    Option.some_inj] at hread
  obtain ⟨bids, hbids, asks, hasks, _, _, _, _, rfl⟩ := hread
  cases s
  · exact mapM_elements hbids
  · exact mapM_elements hasks

theorem mapM_derivedLists {rows : Side → List LobLevel} (h : derivedLists msg = some rows) :
    (∀ s, (levelElements msg.data s).mapM LobLevel.ofValue = some (rows s)) ∨
      ∀ s, levelElements msg.data s = [] := by
  obtain ⟨d, hd, -⟩ := Option.map_eq_some_iff.mp h
  obtain ⟨v, hv, -⟩ := Option.bind_eq_some_iff.mp hd
  cases v with
  | object fields => exact Or.inl (mapM_derivedLists_object hv h)
  | _ =>
    right
    intro s
    rw [levelElements, hv]
    rfl

/-- The levels of the rows that a message adds to `lob_levels`. -/
theorem lobLevels_persistMessage (cfg : Config) {stamp : Stamp} (hflush : stamp.flushOk = true)
    (h : msg.messageType = .l2Snapshot ∨ msg.messageType = .l2Update) (w : World) :
    (persistMessage cfg stamp msg w).lobLevels.map LobLevelRow.level
      = w.lobLevels.map LobLevelRow.level
        ++ bothSides fun s => (((derivedLists msg).map fun rows => rows s).getD []).map rowOf := by
  have hrows : ∀ tsMs action bestBid bestAsk,
      (w.persistLob cfg stamp tsMs action msg.lobLevels bestBid bestAsk).lobLevels.map
          LobLevelRow.level
        = w.lobLevels.map LobLevelRow.level
          ++ bothSides fun s =>
            (((derivedLists msg).map fun rows => rows s).getD []).map rowOf := by
    intro tsMs action bestBid bestAsk
    rw [← map_bothSides rowOf, ← lobLevels_eq h, World.persistLob_lobLevels hflush,
      List.map_append, map_level_lobRows]
  rcases h with h | h
  · simp only [persistMessage, h, hrows]
  · simp only [persistMessage, h, hrows]

end Okx

/-! ## Kraken -/

namespace Kraken

def LobData.side (d : LobData) : Side → List LobLevel
  | .bid => d.bids
  | .ask => d.asks

/-- What the book takes of a level. -/
def deliver (v : Value) : Option (F64 × F64) := do
  let price ← (v.get "price").bind Value.asF64
  let qty ← (v.get "qty").bind Value.asF64
  parseLevel (price, qty)

/-- Price and size before they are written with eight decimals. -/
def rowOf (level : LobLevel) : F64 × F64 := (level.price, level.qty)

theorem entries_eq (msg : KrakenWsMessage) (s : Side) :
    Kraken.model.entries msg s = (levelElements msg.data s).filterMap deliver := by
  show (Lob.levelsOf KrakenWsMessage.data parseLevels msg s).filterMap parseLevel = _
  unfold Lob.levelsOf levelElements
  cases hd : msg.data.head? with
  | none => rfl
  | some d =>
    simp only [Option.map_some, Option.getD_some, parseLevels, Value.elements]
    cases (d.get s.key).bind Value.asArray with
    | none => rfl
    | some arr =>
      simp only [Option.map_some, Option.getD_some, List.filterMap_filterMap]
      refine List.filterMap_congr fun v _ => ?_
      simp [deliver, Option.bind_assoc]

/-- A readable level has the same price and size on both paths. -/
theorem rowOf_eq_of_deliver {v : Value} {level : LobLevel} {e : F64 × F64}
    (hread : LobLevel.ofValue v = some level) (he : deliver v = some e) : rowOf level = e := by
  cases v with
  | object fields =>
    simp only [deliver, Value.get, Option.bind_eq_bind, Option.bind_eq_some_iff] at he
    obtain ⟨price, ⟨vp, hvp, hp⟩, qty, ⟨vq, hvq, hq⟩, he⟩ := he
    simp only [LobLevel.ofValue, Value.structFields, List.map_cons, List.map_nil,
      Option.bind_eq_bind, Option.bind_some, Option.pure_def, Option.some_inj, hvp, hvq,
      Value.fieldOr, Value.readF64, hp, hq] at hread
    subst hread
    rw [parseLevel] at he
    split at he
    · simp at he
    · exact Option.some.inj he
  | _ => simp [deliver, Value.get] at he

variable {msg : KrakenWsMessage}

/-- The derived lists of the first data element. -/
def derivedLists (msg : KrakenWsMessage) : Option (Side → List LobLevel) :=
  (msg.data.head?.bind LobData.ofValue).map LobData.side

theorem type_of_messageType :
    (msg.messageType = .l2Snapshot →
      msg.channel = some "book" ∧ msg.msgType = some "snapshot") ∧
    (msg.messageType = .l2Update → msg.channel = some "book" ∧ msg.msgType = some "update") := by
  unfold KrakenWsMessage.messageType
  constructor <;>
  · intro h
    repeat' split at h
    all_goals simp_all

theorem lobLevels_eq (h : msg.messageType = .l2Snapshot ∨ msg.messageType = .l2Update) :
    msg.lobLevels = bothSides fun s => ((derivedLists msg).map fun rows => rows s).getD [] := by
  have hread : msg.lobSnapshot.or msg.lobUpdate = msg.data.head?.bind LobData.ofValue := by
    rcases h with h | h
    · obtain ⟨hchannel, htype⟩ := type_of_messageType.1 h
      simp [KrakenWsMessage.lobSnapshot, KrakenWsMessage.lobUpdate, hchannel, htype]
    · obtain ⟨hchannel, htype⟩ := type_of_messageType.2 h
      simp [KrakenWsMessage.lobSnapshot, KrakenWsMessage.lobUpdate, hchannel, htype]
  rw [KrakenWsMessage.lobLevels, hread, derivedLists]
  cases msg.data.head?.bind LobData.ofValue with
  | none => rfl
  | some d => rfl

theorem kind_eq (h : msg.messageType = .l2Snapshot ∨ msg.messageType = .l2Update) :
    Exchange.kraken.model.kind msg =
      if msg.data.head?.isNone then .idle
      else if decide (msg.messageType = .l2Snapshot) then .snapshot else .update := by
  show Lob.kindOf KrakenWsMessage.data KrakenWsMessage.msgType msg = _
  rcases h with h | h
  · cases hd : msg.data.head? <;> simp [Lob.kindOf, hd, h, (type_of_messageType.1 h).2]
  · cases hd : msg.data.head? <;> simp [Lob.kindOf, hd, h, (type_of_messageType.2 h).2]

theorem mapM_derivedLists {rows : Side → List LobLevel} (h : derivedLists msg = some rows) :
    (∀ s, (levelElements msg.data s).mapM LobLevel.ofValue = some (rows s)) ∨
      ∀ s, levelElements msg.data s = [] := by
  obtain ⟨d, hd, rfl⟩ := Option.map_eq_some_iff.mp h
  obtain ⟨v, hv, hread⟩ := Option.bind_eq_some_iff.mp hd
  simp only [levelElements, hv, Option.map_some, Option.getD_some]
  cases v with
  | object fields =>
    left
    simp only [LobData.ofValue, Value.structFields, List.map_cons, List.map_nil,
      Option.bind_eq_bind, Option.bind_some, Option.bind_eq_some_iff, Option.pure_def,
      Option.some_inj] at hread
    obtain ⟨_, _, bids, hbids, asks, hasks, _, _, _, _, rfl⟩ := hread
    intro s
    cases s
    · exact mapM_elements hbids
    · exact mapM_elements hasks
  | _ => exact Or.inr fun s => rfl

/-- A message adds its levels to `lob_levels`, with eight decimals. -/
theorem lobLevels_persistMessage (rfc3339 : String → Option ℤ) (cfg : Config) {stamp : Stamp}
    (hflush : stamp.flushOk = true)
    (h : msg.messageType = .l2Snapshot ∨ msg.messageType = .l2Update) (w : World) :
    (persistMessage rfc3339 cfg stamp msg w).lobLevels.map LobLevelRow.level
      = w.lobLevels.map LobLevelRow.level
        ++ msg.lobLevels.map fun (s, level) => (s, Okx.rowOf (toOkxLevel level)) := by
  have hrows : ∀ tsMs action bestBid bestAsk,
      (w.persistLob cfg stamp tsMs action
          (msg.lobLevels.map fun (side, kl) => (side, toOkxLevel kl)) bestBid bestAsk).lobLevels.map
            LobLevelRow.level
        = w.lobLevels.map LobLevelRow.level
          ++ msg.lobLevels.map fun (s, level) => (s, Okx.rowOf (toOkxLevel level)) := by
    intro tsMs action bestBid bestAsk
    rw [World.persistLob_lobLevels hflush, List.map_append, Okx.map_level_lobRows, List.map_map]
    rfl
  rcases h with h | h
  · simp only [persistMessage, h, hrows]
  · simp only [persistMessage, h, hrows]

end Kraken

/-! ## The two paths -/

namespace Okx

/-- Both paths read the same levels from the message. -/
def SameReadings (msg : OkxWsMessage) : Prop :=
  SameLevels (derivedLists msg) (levelElements msg.data)
    (applies deliver (msg.messageType = .l2Snapshot))

end Okx

namespace Kraken

/-- Both paths read the same levels from the message. -/
def SameReadings (msg : KrakenWsMessage) : Prop :=
  SameLevels (derivedLists msg) (levelElements msg.data)
    (applies deliver (msg.messageType = .l2Snapshot))

end Kraken

/-- **When what is persisted is what is applied.** The rows of a book message are the levels that
the book applies, bids first, if and only if the derived reading of the data element fails and no
level of it is one the book applies, or it succeeds, every level of both arrays is one the book
applies, and the element is no positional array with levels. The values of Kraken are compared
before they are written with eight decimals. -/
theorem persisted_eq_applied_iff (cfg : Config) (stamp : Stamp) (hflush : stamp.flushOk = true) :
    (∀ (msg : Okx.OkxWsMessage) (w : World),
      msg.messageType = .l2Snapshot ∨ msg.messageType = .l2Update →
      ((Okx.persistMessage cfg stamp msg w).lobLevels.map LobLevelRow.level
          = w.lobLevels.map LobLevelRow.level ++ bothSides (Exchange.okx.counted msg) ↔
        Okx.SameReadings msg)) ∧
    (∀ (rfc3339 : String → Option ℤ) (msg : Kraken.KrakenWsMessage) (w : World),
      msg.messageType = .l2Snapshot ∨ msg.messageType = .l2Update →
      (Kraken.persistMessage rfc3339 cfg stamp msg w).lobLevels.map LobLevelRow.level
          = w.lobLevels.map LobLevelRow.level
            ++ msg.lobLevels.map (fun (s, level) => (s, Okx.rowOf (Kraken.toOkxLevel level))) ∧
        (msg.lobLevels.map (fun (s, level) => (s, Kraken.rowOf level))
            = bothSides (Exchange.kraken.counted msg) ↔
          Kraken.SameReadings msg)) := by
  constructor
  · intro msg w h
    have hcounted : Exchange.okx.counted msg = fun s => (levelElements msg.data s).filterMap
        (applies Okx.deliver (msg.messageType = .l2Snapshot)) :=
      funext fun s => counted_eq (Okx.entries_eq msg s) rfl (Okx.kind_eq h)
    rw [Okx.lobLevels_persistMessage cfg hflush h, List.append_cancel_left_eq, hcounted]
    refine rows_eq_iff ?_ fun rows hrows => Okx.mapM_derivedLists hrows
    intro v level e hread he
    exact Okx.rowOf_eq_of_deliver hread (Option.filter_eq_some_iff.mp he).1
  · intro rfc3339 msg w h
    refine ⟨Kraken.lobLevels_persistMessage rfc3339 cfg hflush h w, ?_⟩
    have hcounted : Exchange.kraken.counted msg = fun s => (levelElements msg.data s).filterMap
        (applies Kraken.deliver (msg.messageType = .l2Snapshot)) :=
      funext fun s => counted_eq (Kraken.entries_eq msg s) rfl (Kraken.kind_eq h)
    rw [Kraken.lobLevels_eq h, map_bothSides, hcounted]
    refine rows_eq_iff ?_ fun rows hrows => Kraken.mapM_derivedLists hrows
    intro v level e hread he
    exact Kraken.rowOf_eq_of_deliver hread (Option.filter_eq_some_iff.mp he).1

/-- Two readable bids in an update. -/
def twoBids : Okx.OkxWsMessage := Okx.booksMsg "update" [("100", "1"), ("99", "0")] []

def twoKrakenBids : Kraken.KrakenWsMessage := Kraken.bookMsg "update" [(100, 1), (99, 0)] []

theorem persisted_eq_applied_iff_twoBids :
    ((Okx.persistMessage okxConfig { now := 0 } twoBids {}).lobLevels.map LobLevelRow.level
        = ([] : List LobLevelRow).map LobLevelRow.level
          ++ bothSides (Exchange.okx.counted twoBids) ↔
      Okx.SameReadings twoBids) ∧
    (twoKrakenBids.lobLevels.map (fun (s, level) => (s, Kraken.rowOf level))
        = bothSides (Exchange.kraken.counted twoKrakenBids) ↔
      Kraken.SameReadings twoKrakenBids) :=
  ⟨(persisted_eq_applied_iff okxConfig { now := 0 } rfl).1 twoBids {} (by decide +kernel),
    ((persisted_eq_applied_iff okxConfig { now := 0 } rfl).2 (fun _ => none) twoKrakenBids {}
      (by decide +kernel)).2⟩

/-- A bid whose price is no number: the book skips it, and it is written as price 0 and size 0. -/
theorem persisted_made_up :
    ¬ ∀ (cfg : Config) (stamp : Stamp) (msg : Okx.OkxWsMessage) (w : World),
      stamp.flushOk = true → msg.messageType = .l2Snapshot ∨ msg.messageType = .l2Update →
      (Okx.persistMessage cfg stamp msg w).lobLevels.map LobLevelRow.level
        = w.lobLevels.map LobLevelRow.level ++ bothSides (Exchange.okx.counted msg) := by
  intro h
  have hrows := h okxConfig { now := 0 } (Okx.booksMsg "update" [("100", "1"), ("x", "2")] []) {}
    rfl (by decide +kernel)
  exact absurd hrows (by decide +kernel)

-- One level of five elements, and nothing of the message is written; the book takes both levels.
example :
    let msg : Okx.OkxWsMessage :=
      { arg := some { channel := "books", instId := "BTC-USDT" }
        action := some "update"
        data := [.object [("bids", .array [.array [.string "100", .string "1"],
          .array [.string "99", .string "2", .string "0", .string "1", .string ""]])]] }
    (Okx.persistMessage okxConfig { now := 0 } msg {}).lobLevels.length = 0 ∧
      (Exchange.okx.counted msg .bid).length = 2 := by
  decide +kernel

end Cryptomeria
