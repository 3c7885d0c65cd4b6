import Cryptomeria.Client.Persist
import Cryptomeria.Python.Rebuild

/-!
# The book, replayed from its rows

The rows of OKX book messages go through the reader, and what it yields is compared with the book
that `process_msg` keeps. An update is taken alike. A snapshot is not: the reader clears both sides
at the first snapshot row of a timestamp and sets every size, the book clears a side for every
message that lists a level for it and stores positive sizes only. `replay_agrees` is for the runs
whose snapshots do not meet the difference (`TakenAlike`).
-/

set_option autoImplicit false

namespace Cryptomeria
namespace Python

open WriteLog Okx

/-! ## Rows of a message -/

/-- The timestamp of the rows of a message. -/
def tsOf (msg : OkxWsMessage) : ℕ := msg.timestampMs.getD 0

/-- A level in the columns of the reader. -/
def levelRow (ts : ℕ) (action : Option String) : Side × F64 × F64 → Row
  | (.bid, price, amount) =>
    { ts, action, priceAsk := none, amountAsk := none
      priceBid := some price, amountBid := some amount }
  | (.ask, price, amount) =>
    { ts, action, priceAsk := some price, amountAsk := some amount
      priceBid := none, amountBid := none }

/-- The rows of `lob_levels`, in the format of the reader. -/
def rowsOf (msg : OkxWsMessage) : List Row :=
  msg.lobLevels.map fun l => levelRow (tsOf msg) msg.action (l.1, rowOf l.2)

/-! ## Messages -/

/-- A string that is a number. -/
def numeric (v : Value) : Bool := (v.asStr.bind parseF64).any fun a => !a.isNan

/-- An array of two to four numeric strings. -/
def numericLevel (v : Value) : Bool :=
  v.asArray.any fun elems => 2 ≤ elems.length && elems.length ≤ 4 && elems.all numeric

/-- A message of the `books` channel with an action and numeric levels. -/
structure BooksMessage (msg : OkxWsMessage) : Prop where
  messageType : msg.messageType = .l2Snapshot ∨ msg.messageType = .l2Update
  levels : ∀ s, ∀ v ∈ levelElements msg.data s, numericLevel v = true

theorem booksMessage_iff {msg : OkxWsMessage} : BooksMessage msg ↔
    (msg.messageType = .l2Snapshot ∨ msg.messageType = .l2Update) ∧
      ∀ s, ∀ v ∈ levelElements msg.data s, numericLevel v = true :=
  ⟨fun h => ⟨h.messageType, h.levels⟩, fun h => ⟨h.1, h.2⟩⟩

instance (msg : OkxWsMessage) : Decidable (BooksMessage msg) :=
  decidable_of_iff' _ booksMessage_iff

/-- The data element is an object, and its derived reading succeeds: besides the levels, the
timestamp is a string and the checksum an integer, if they are there. -/
def readable (msg : OkxWsMessage) : Bool :=
  msg.data.head?.all fun d =>
    match d with
    | .object _ => (LobData.ofValue d).isSome
    | _ => false

/-- The levels that a message lists for a side. -/
def listed (msg : OkxWsMessage) (s : Side) : List (F64 × F64) := Exchange.okx.listed msg s

def lists (msg : OkxWsMessage) : Bool := !(listed msg .bid).isEmpty || !(listed msg .ask).isEmpty

def isSnapshot (msg : OkxWsMessage) : Bool := msg.action = some "snapshot"

/-- The book after these messages, without a filter. -/
def bookAfter (msgs : List OkxWsMessage) : OrderBook :=
  msgs.foldl (fun b msg => processMsg msg none b) OrderBook.new

/-! ## Agreement -/

def Book.side (b : Book) : Side → LevelDict
  | .bid => b.bids
  | .ask => b.asks

/-- The dictionaries hold what the book holds. -/
def Agrees (book : Book) (b : OrderBook) : Prop :=
  ∀ s q, (book.side s).get? q = ((b.side s)[q]?).map some

/-- A snapshot after which dictionary and book agree on a side that holds `m` before it. The last
size for every listed price is positive. If no snapshot row with its timestamp came before it, a
side without levels is empty already; otherwise it lists all prices that the side holds, if any. -/
def TakenAlike {s : Side} (seen : Bool) (m : Levels s) (es : List (F64 × F64)) : Prop :=
  (∀ e ∈ es, ((lastSize es e.1).any fun a => a.gt F64.zero) = true) ∧
    if seen then es ≠ [] → ∀ q ∈ m.keys, q ∈ es.map Prod.fst else es = [] → m.isEmpty = true

instance {s : Side} (seen : Bool) (m : Levels s) (es : List (F64 × F64)) :
    Decidable (TakenAlike seen m es) :=
  inferInstanceAs (Decidable ((∀ e ∈ es, _ = true) ∧ if seen then _ → ∀ q ∈ m.keys, _ else _ → _))

/-- A snapshot with levels and with the same timestamp came before. -/
def seen (pre : List OkxWsMessage) (msg : OkxWsMessage) : Bool :=
  pre.any fun msg' => tsOf msg' = tsOf msg && (isSnapshot msg' && lists msg')

/-- The condition on a message, after the messages `pre`. -/
def Alike (pre : List OkxWsMessage) (msg : OkxWsMessage) : Prop :=
  readable msg = true ∧ (isSnapshot msg = true → lists msg = true →
    ∀ s, TakenAlike (seen pre msg) ((bookAfter pre).side s) (listed msg s))

instance (pre : List OkxWsMessage) (msg : OkxWsMessage) : Decidable (Alike pre msg) :=
  inferInstanceAs (Decidable (_ ∧ (_ → _ → _)))

/-! ## The last size for a price -/

section LastSize

variable {es : List (F64 × F64)} {q a : F64}

theorem lastSize_eq_none : lastSize es q = none ↔ q ∉ es.map Prod.fst := by
  rw [lastSize, Option.map_eq_none_iff, List.getLast?_eq_none_iff, List.filter_eq_nil_iff,
    List.mem_map]
  constructor
  · intro h hmem
    obtain ⟨e, he, rfl⟩ := hmem
    exact h e he (by simp)
  · intro h e he heq
    exact h ⟨e, he, of_decide_eq_true heq⟩

theorem mem_of_lastSize (h : lastSize es q = some a) : (q, a) ∈ es := by
  obtain ⟨e, he, rfl⟩ := Option.map_eq_some_iff.mp h
  obtain ⟨hmem, hq⟩ := List.mem_filter.mp (List.mem_of_getLast? he)
  rw [← of_decide_eq_true hq]
  exact hmem

theorem lastSize_filter_positive (h : lastSize es q = some a) (ha : a.gt F64.zero = true) :
    lastSize (es.filter fun e => e.2.gt F64.zero) q = some a := by
  induction es using List.reverseRecOn with
  | nil => cases h
  | append_singleton es e ih =>
    rw [lastSize_concat] at h
    rw [List.filter_append]
    by_cases hq : e.1 = q
    · rw [if_pos hq] at h
      obtain rfl := Option.some.inj h
      simp only [List.filter_cons, ha, if_true, List.filter_nil, lastSize_concat, if_pos hq]
    · rw [if_neg hq] at h
      cases hpos : e.2.gt F64.zero with
      | true =>
        simp only [List.filter_cons, hpos, if_true, List.filter_nil, lastSize_concat, if_neg hq,
          ih h]
      | false =>
        simp only [List.filter_cons, hpos, Bool.false_eq_true, if_false, List.filter_nil,
          List.append_nil, ih h]

theorem lastSize_filter_none (h : lastSize es q = none) (p : F64 × F64 → Bool) :
    lastSize (es.filter p) q = none := by
  rw [lastSize_eq_none] at h ⊢
  exact fun hmem => h ((List.filter_sublist.map _).subset hmem)

end LastSize

/-! ## A message and its rows -/

section Message

variable {msg : OkxWsMessage}

theorem deliver_isSome {v : Value} (h : numericLevel v = true) : (deliver v).isSome = true := by
  obtain ⟨elems, helems, hnumeric⟩ := Option.any_eq_true _ _ |>.mp h
  cases v with
  | array vs =>
    obtain rfl : vs = elems := Option.some.inj helems
    match vs with
    | [] => simp at hnumeric
    | [_] => simp at hnumeric
    | price :: size :: rest =>
      simp only [List.all_cons, Bool.and_eq_true] at hnumeric
      obtain ⟨-, hprice, hsize, -⟩ := hnumeric
      obtain ⟨p, hp, -⟩ := Option.any_eq_true _ _ |>.mp hprice
      obtain ⟨a, ha, -⟩ := Option.any_eq_true _ _ |>.mp hsize
      obtain ⟨price', hprice', hp⟩ := Option.bind_eq_some_iff.mp hp
      obtain ⟨size', hsize', ha⟩ := Option.bind_eq_some_iff.mp ha
      simp [deliver, Value.asArray, hprice', hsize', parseLevel, hp, ha]
  | _ => simp [Value.asArray] at helems

theorem listed_eq (msg : OkxWsMessage) (s : Side) :
    listed msg s = (levelElements msg.data s).filterMap deliver := entries_eq msg s

/-- The rows of a message have the levels that the book reads, bids first. -/
theorem rowsOf_eq (h : BooksMessage msg) (hread : readable msg = true) :
    rowsOf msg = (bothSides (listed msg)).map (levelRow (tsOf msg) msg.action) := by
  have hlevels : msg.lobLevels.map (fun l => (l.1, rowOf l.2)) = bothSides (listed msg) := by
    rw [lobLevels_eq h.messageType]
    refine (map_bothSides rowOf _).trans (congrArg bothSides (funext fun s => ?_))
    rw [listed_eq]
    cases hd : msg.data.head? with
    | none => simp [derivedLists, levelElements, hd]
    | some d =>
      rw [readable, hd, Option.all_some] at hread
      cases d with
      | object fields =>
        obtain ⟨lists, hlists⟩ := Option.isSome_iff_exists.mp hread
        have hrows : derivedLists msg = some lists.side := by
          rw [derivedLists, hd, Option.bind_some, hlists, Option.map_some]
        rw [hrows, Option.map_some, Option.getD_some]
        refine map_row_eq (fun v level e => rowOf_eq_of_deliver)
          (mapM_derivedLists_object hd hrows s) ?_
        intro v hv
        exact deliver_isSome (h.levels s v hv)
      | _ => cases hread
  rw [rowsOf, ← hlevels, List.map_map]
  rfl

end Message

/-! ## What the dictionaries do -/

/-- The entries of a side, applied one after the other. -/
def applyLevels (isSnapshot : Bool) (d : LevelDict) (es : List (F64 × F64)) : LevelDict :=
  es.foldl (fun d e => applyLevel d (some e.1) (some e.2) isSnapshot) d

theorem get?_applyLevel (isSnapshot : Bool) (d : LevelDict) (price amount q : F64) :
    (applyLevel d (some price) (some amount) isSnapshot).get? q =
      if price = q then if !isSnapshot && amount.eq F64.zero then none else some (some amount)
      else d.get? q := by
  cases isSnapshot with
  | true => exact d.get?_set price q (some amount)
  | false =>
    cases hzero : amount.eq F64.zero with
    | true =>
      simp only [applyLevel, Option.any_some, hzero, if_true, Bool.false_eq_true, if_false]
      exact d.get?_pop price q
    | false =>
      simp only [applyLevel, Option.any_some, hzero, Bool.false_eq_true, if_false]
      exact d.get?_set price q (some amount)

theorem get?_applyLevels (isSnapshot : Bool) (d : LevelDict) (es : List (F64 × F64)) (q : F64) :
    (applyLevels isSnapshot d es).get? q =
      match lastSize es q with
      | some a => if !isSnapshot && a.eq F64.zero then none else some (some a)
      | none => d.get? q := by
  induction es using List.reverseRecOn with
  | nil => rfl
  | append_singleton es e ih =>
    rw [applyLevels, List.foldl_append, List.foldl_cons, List.foldl_nil, ← applyLevels,
      get?_applyLevel, lastSize_concat, ih]
    split <;> rfl

theorem side_applyRow (ts : ℕ) (action : Option String) (book : Book) (s s' : Side)
    (e : F64 × F64) :
    (book.applyRow (levelRow ts action (s, e))).side s'
      = if s = s' then applyLevel (book.side s') (some e.1) (some e.2) (action = some "snapshot")
        else book.side s' := by
  cases s <;> cases s' <;> rfl

theorem side_foldl_applyRow (ts : ℕ) (action : Option String) (book : Book) (s s' : Side)
    (es : List (F64 × F64)) :
    (((es.map (Prod.mk s)).map (levelRow ts action)).foldl Book.applyRow book).side s'
      = if s = s' then applyLevels (action = some "snapshot") (book.side s') es
        else book.side s' := by
  induction es generalizing book with
  | nil => simp [applyLevels]
  | cons e es ih =>
    rw [List.map_cons, List.map_cons, List.foldl_cons, ih, side_applyRow]
    split <;> rfl

/-- The rows of a message change a side by the levels listed for it. -/
theorem side_applyRows (ts : ℕ) (action : Option String) (book : Book)
    (es : Side → List (F64 × F64)) (s : Side) :
    (((bothSides es).map (levelRow ts action)).foldl Book.applyRow book).side s
      = applyLevels (action = some "snapshot") (book.side s) (es s) := by
  rw [bothSides, List.map_append, List.foldl_append, side_foldl_applyRow, side_foldl_applyRow]
  cases s <;> rfl

/-! ## What the book does -/

theorem getElem?_replay_positive {s : Side} (m : Levels s) (es : List (F64 × F64)) (q : F64) :
    (replay m (writes (es.filter fun e => e.2.gt F64.zero)))[q]?
      = (lastSize (es.filter fun e => e.2.gt F64.zero) q).or m[q]? := by
  rw [getElem?_replay, last_writes]
  cases hlast : lastSize (es.filter fun e => e.2.gt F64.zero) q with
  | none => rfl
  | some a =>
    have hpos : a.gt F64.zero = true := by
      simpa using (List.mem_filter.mp (mem_of_lastSize hlast)).2
    rw [Option.map_some, F64.eq_zero_of_gt_zero hpos]
    rfl

theorem blank_iff {msg : OkxWsMessage} (h : BooksMessage msg) (s : Side) :
    Okx.model.blank msg s = true ↔ listed msg s = [] := by
  have hlength : (listed msg s).length = (levelElements msg.data s).length := by
    rw [listed_eq, List.filterMap_length_eq_length]
    intro v hv
    exact deliver_isSome (h.levels s v hv)
  have hblank : Okx.model.blank msg s = ((levelElements msg.data s).filterMap fun v =>
      v.asArray.map fun a => a.filterMap Value.asStr).isEmpty := by
    show (Lob.levelsOf OkxWsMessage.data parseLevels msg s).isEmpty = _
    unfold Lob.levelsOf levelElements
    cases msg.data.head? with
    | none => rfl
    | some d =>
      simp only [Option.map_some, Option.getD_some, parseLevels, Value.elements]
      cases (d.get s.key).bind Value.asArray <;> rfl
  have harrays : ((levelElements msg.data s).filterMap fun v =>
      v.asArray.map fun a => a.filterMap Value.asStr).length
        = (levelElements msg.data s).length := by
    rw [List.filterMap_length_eq_length]
    intro v hv
    obtain ⟨elems, helems, -⟩ := Option.any_eq_true _ _ |>.mp (h.levels s v hv)
    rw [helems]
    rfl
  rw [hblank, List.isEmpty_iff, ← List.length_eq_zero_iff, harrays, ← hlength,
    List.length_eq_zero_iff]

theorem kind_snapshot {msg : OkxWsMessage} (h : BooksMessage msg) :
    (isSnapshot msg = true → msg.messageType = .l2Snapshot) ∧
      (isSnapshot msg = false → msg.messageType = .l2Update) := by
  have hactions := @action_of_messageType msg
  rcases h.messageType with hm | hm
  · simp [isSnapshot, hactions.1 hm, hm]
  · simp [isSnapshot, hactions.2 hm, hm]

/-- The levels that a snapshot puts on a side. -/
def replaced {s : Side} (m : Levels s) (es : List (F64 × F64)) : Levels s :=
  replay (if es = [] then m else ∅) (writes (es.filter fun e => e.2.gt F64.zero))

theorem side_processMsg {msg : OkxWsMessage} (h : BooksMessage msg) (b : OrderBook) (s : Side) :
    (processMsg msg none b).side s
      = if isSnapshot msg then replaced (b.side s) (listed msg s)
        else replay (b.side s) (writes (listed msg s)) := by
  have hstep : (processMsg msg none b).side s
      = replay
          (if decide (Okx.model.kind msg = .snapshot) && !Okx.model.blank msg s then ∅
            else b.side s)
          (writes (Exchange.okx.counted msg s)) :=
    @Exchange.side_step .okx msg (@Lob.kindOf_ne_order _ _ _ msg) b s
  have hkind : Okx.model.kind msg =
      if msg.data.head?.isNone then .idle
      else if decide (msg.messageType = .l2Snapshot) then .snapshot else .update :=
    kind_eq h.messageType
  cases hd : msg.data.head? with
  | none =>
    have hidle : Okx.model.kind msg = .idle := by rw [hkind, hd]; rfl
    have hlisted : listed msg s = [] := by simp [listed_eq, levelElements, hd]
    rw [hstep, @Exchange.counted_idle .okx msg s hidle, hidle, hlisted]
    cases isSnapshot msg <;> rfl
  | some d =>
    simp only [hd, Option.isNone_some, Bool.false_eq_true, if_false] at hkind
    cases hsnapshot : isSnapshot msg with
    | true =>
      simp only [(kind_snapshot h).1 hsnapshot, decide_true, if_true] at hkind
      rw [hstep, @Exchange.counted_snapshot .okx msg s hkind, hkind, if_pos rfl, replaced]
      by_cases hnil : listed msg s = []
      · rw [(blank_iff h s).mpr hnil, if_pos hnil]
        rfl
      · have hblank : Okx.model.blank msg s = false :=
          Bool.eq_false_iff.mpr fun hb => hnil ((blank_iff h s).mp hb)
        rw [hblank, if_neg hnil]
        rfl
    | false =>
      have hupdate : msg.messageType = .l2Update := (kind_snapshot h).2 hsnapshot
      simp only [hupdate, reduceCtorEq, decide_false, Bool.false_eq_true, if_false] at hkind
      rw [hstep, @Exchange.counted_update .okx msg s hkind, hkind]
      rfl

/-! ## One message -/

section Step

variable {s : Side} {d : LevelDict} {m : Levels s}

/-- An update is taken alike. -/
theorem update_agrees (h : ∀ q, d.get? q = m[q]?.map some) (es : List (F64 × F64)) (q : F64) :
    (applyLevels false d es).get? q = (replay m (writes es))[q]?.map some := by
  rw [get?_applyLevels, getElem?_replay, last_writes]
  cases lastSize es q with
  | none => exact h q
  | some a =>
    simp only [Bool.not_false, Bool.true_and, Option.map_some, Option.getD_some]
    split <;> rfl

theorem get?_snapshotRows (h : ∀ q, d.get? q = m[q]?.map some) (seen : Bool)
    (es : List (F64 × F64)) (q : F64) :
    (applyLevels true (if seen then d else Dict.empty) es).get? q
      = ((lastSize es q).map some).or (if seen then m[q]?.map some else none) := by
  rw [get?_applyLevels]
  cases lastSize es q with
  | some a => rfl
  | none =>
    cases seen with
    | true => exact h q
    | false => rfl

theorem getElem?_replaced (m : Levels s) (es : List (F64 × F64)) (q : F64) :
    (replaced m es)[q]?
      = (lastSize (es.filter fun e => e.2.gt F64.zero) q).or (if es = [] then m[q]? else none) := by
  rw [replaced, getElem?_replay_positive]
  split <;> simp

/-- A listed price is taken alike when its last size is positive. -/
theorem agrees_listed_iff (h : ∀ q, d.get? q = m[q]?.map some) (seen : Bool)
    {es : List (F64 × F64)} {q a : F64} (hlast : lastSize es q = some a) :
    (applyLevels true (if seen then d else Dict.empty) es).get? q = (replaced m es)[q]?.map some ↔
      a.gt F64.zero = true := by
  have hne : es ≠ [] := List.ne_nil_of_mem (mem_of_lastSize hlast)
  rw [get?_snapshotRows h, getElem?_replaced, hlast, if_neg hne, Option.or_none]
  constructor
  · intro heq
    obtain ⟨a', hstored, ha⟩ := Option.map_eq_some_iff.mp heq.symm
    obtain rfl := Option.some.inj ha
    simpa using (List.mem_filter.mp (mem_of_lastSize hstored)).2
  · intro ha
    rw [lastSize_filter_positive hlast ha]
    rfl

/-- Any other price must not be held where one of the two clears the side and the other does
not. -/
theorem agrees_unlisted_iff (h : ∀ q, d.get? q = m[q]?.map some) (seen : Bool)
    {es : List (F64 × F64)} {q : F64} (hlast : lastSize es q = none) :
    (applyLevels true (if seen then d else Dict.empty) es).get? q = (replaced m es)[q]?.map some ↔
      if seen then es ≠ [] → q ∉ m else es = [] → q ∉ m := by
  rw [get?_snapshotRows h, getElem?_replaced, hlast, lastSize_filter_none hlast]
  have hheld : q ∉ m ↔ m[q]? = none := by
    rw [Std.ExtTreeMap.mem_iff_isSome_getElem?, Option.not_isSome_iff_eq_none]
  rw [hheld]
  cases seen with
  | true => by_cases hnil : es = [] <;> cases m[q]? <;> simp [hnil]
  | false => by_cases hnil : es = [] <;> cases m[q]? <;> simp [hnil]

/-- A snapshot is taken alike under the condition, and under no other. -/
theorem snapshot_agrees_iff (h : ∀ q, d.get? q = m[q]?.map some) (seen : Bool)
    (es : List (F64 × F64)) :
    (∀ q, (applyLevels true (if seen then d else Dict.empty) es).get? q
        = (replaced m es)[q]?.map some) ↔ TakenAlike seen m es := by
  constructor
  · intro hall
    refine ⟨?_, ?_⟩
    · intro e he
      cases hlast : lastSize es e.1 with
      | none => exact absurd (List.mem_map_of_mem he) (lastSize_eq_none.mp hlast)
      | some a => exact (agrees_listed_iff h seen hlast).mp (hall e.1)
    · have hrest : ∀ q, lastSize es q = none →
          if seen then es ≠ [] → q ∉ m else es = [] → q ∉ m :=
        fun q hlast => (agrees_unlisted_iff h seen hlast).mp (hall q)
      cases seen with
      | true =>
        intro hne q hq
        by_contra hout
        exact hrest q (lastSize_eq_none.mpr hout) hne (Std.ExtTreeMap.mem_keys.mp hq)
      | false =>
        intro hnil
        rw [Std.ExtTreeMap.isEmpty_iff, Std.ExtTreeMap.eq_empty_iff_forall_not_mem]
        intro q
        exact hrest q (by rw [hnil]; rfl) hnil
  · rintro ⟨hpositive, hrest⟩ q
    cases hlast : lastSize es q with
    | some a =>
      have hlisted := hpositive (q, a) (mem_of_lastSize hlast)
      rw [hlast] at hlisted
      exact (agrees_listed_iff h seen hlast).mpr hlisted
    | none =>
      rw [agrees_unlisted_iff h seen hlast]
      cases seen with
      | true =>
        intro hne hheld
        exact lastSize_eq_none.mp hlast (hrest hne q (Std.ExtTreeMap.mem_keys.mpr hheld))
      | false =>
        intro hnil hheld
        rw [Std.ExtTreeMap.isEmpty_iff.mp (hrest hnil)] at hheld
        simp at hheld

/-- The rows of a message change the dictionaries as the message changes the book. The dictionaries
are cleared before a snapshot, unless an earlier one with the same timestamp has cleared them. -/
theorem agrees_applyRows {msg : OkxWsMessage} (h : BooksMessage msg) (hread : readable msg = true)
    {book : Book} {b : OrderBook} (hagrees : Agrees book b) (seen : Bool)
    (htaken : isSnapshot msg = true → ∀ s, TakenAlike seen (b.side s) (listed msg s)) :
    Agrees ((rowsOf msg).foldl Book.applyRow (if isSnapshot msg && !seen then Book.empty else book))
      (processMsg msg none b) := by
  intro s q
  rw [rowsOf_eq h hread, side_applyRows, side_processMsg h]
  show (applyLevels (isSnapshot msg) _ _).get? q = _
  cases hsnapshot : isSnapshot msg with
  | true =>
    have hiff := snapshot_agrees_iff (hagrees s) seen (listed msg s)
    have hside : (if true && !seen then Book.empty else book).side s
        = if seen then book.side s else Dict.empty := by
      cases seen
      · cases s <;> rfl
      · rfl
    rw [hside, if_pos rfl]
    exact hiff.mpr (htaken hsnapshot s) q
  | false => exact update_agrees (hagrees s) (listed msg s) q

theorem lists_eq_false {msg : OkxWsMessage} : lists msg = false ↔ ∀ s, listed msg s = [] := by
  rw [lists, Bool.or_eq_false_iff, Bool.not_eq_false', Bool.not_eq_false', List.isEmpty_iff,
    List.isEmpty_iff]
  constructor
  · intro hnil s
    cases s
    · exact hnil.1
    · exact hnil.2
  · intro hnil
    exact ⟨hnil .bid, hnil .ask⟩

/-- A message without levels has no rows. -/
theorem rowsOf_eq_nil {msg : OkxWsMessage} (h : BooksMessage msg) (hread : readable msg = true) :
    rowsOf msg = [] ↔ lists msg = false := by
  rw [rowsOf_eq h hread, List.map_eq_nil_iff, bothSides_eq_nil, lists_eq_false]

/-- A message without levels leaves the book as it is. -/
theorem processMsg_of_not_lists {msg : OkxWsMessage} (h : BooksMessage msg)
    (hlists : lists msg = false) (b : OrderBook) : processMsg msg none b = b := by
  apply OrderBook.ext_side
  intro s
  rw [side_processMsg h, lists_eq_false.mp hlists, replaced]
  split <;> rfl

end Step

/-! ## The rows of a message in the reader -/

section Rows

open Reader

variable {r : Reader} {ts : ℕ} {isSnapshot : Bool} {rows : List Row}

/-- All rows of a run are snapshot rows, or none is. -/
theorem after_rows (hsnapshot : ∀ row ∈ rows, row.isSnapshot = isSnapshot) (hne : rows ≠ [])
    (book : Book) :
    rows.any Row.isSnapshot = isSnapshot ∧
      book.after rows = rows.foldl Book.applyRow (if isSnapshot then Book.empty else book) := by
  obtain ⟨row, rest, rfl⟩ := List.exists_cons_of_ne_nil hne
  have hrow := hsnapshot row List.mem_cons_self
  cases isSnapshot with
  | true => simp [Book.after, hrow]
  | false =>
    have hany : (row :: rest).any Row.isSnapshot = false := by
      rw [List.any_eq_false]
      intro row' hrow'
      rw [hsnapshot row' hrow']
      exact Bool.false_ne_true
    rw [Book.after, hany]
    exact ⟨rfl, rfl⟩

/-- The rows of a message. Whether the sides have been cleared counts within a timestamp only, and
what is pending is yielded when the timestamp is a new one. -/
theorem foldl_next_rows (hne : rows ≠ []) (hts : ∀ row ∈ rows, row.ts = ts)
    (hsnapshot : ∀ row ∈ rows, row.isSnapshot = isSnapshot) (h : r.Wf)
    (hfresh : r.currentTs = none → r.snapshotCleared = false) (ys : Yields) :
    ∃ (r' : Reader) (ys' : Yields), rows.foldl (next collect) (r, ys) = (r', ys') ∧ r'.Wf ∧
      r'.currentTs = some ts ∧
      r'.snapshotCleared = ((decide (r.currentTs = some ts) && r.snapshotCleared) || isSnapshot) ∧
      r'.book = rows.foldl Book.applyRow
        (if isSnapshot && !(decide (r.currentTs = some ts) && r.snapshotCleared) then Book.empty
          else r.book) ∧
      ys'.contents = ys.contents ++ if r.currentTs = some ts then [] else r.pending.toList := by
  obtain ⟨hany, hafter⟩ := after_rows hsnapshot hne r.book
  by_cases hsame : r.currentTs = some ts
  · obtain ⟨r', hfold, hwf', hts', hcleared', hbook'⟩ := foldl_next_same hts h hsame ys
    refine ⟨r', ys, hfold, hwf', hts', ?_, ?_, ?_⟩
    · rw [hcleared', hany, decide_eq_true hsame, Bool.true_and]
    · rw [hbook', hafter, decide_eq_true hsame, Bool.true_and]
      cases r.snapshotCleared <;> simp
    · rw [if_pos hsame, List.append_nil]
  · have hrunTs : runTs rows = ts := by
      obtain ⟨row, rest, rfl⟩ := List.exists_cons_of_ne_nil hne
      exact hts row List.mem_cons_self
    obtain ⟨r', ys', hfold, hwf', hys', hts', hcleared', hbook'⟩ :=
      foldl_next_run hne (by rwa [hrunTs]) h (by rwa [hrunTs]) hfresh ys
    refine ⟨r', ys', hfold, hwf', by rw [hts', hrunTs], ?_, ?_, ?_⟩
    · rw [hcleared', hany, decide_eq_false hsame, Bool.false_and, Bool.false_or]
    · rw [hbook', hafter, decide_eq_false hsame, Bool.false_and, Bool.not_false, Bool.and_true]
    · rw [hys', if_neg hsame]

end Rows

/-! ## Message after message -/

section Run

open Reader

variable {pre : List OkxWsMessage} {msg : OkxWsMessage} {r : Reader} {ys : Yields}

/-- The timestamp of the last row. -/
def lastTs (pre : List OkxWsMessage) : Option ℕ := (pre.filter lists).getLast?.map tsOf

theorem lastTs_concat (pre : List OkxWsMessage) (msg : OkxWsMessage) :
    lastTs (pre ++ [msg]) = if lists msg then some (tsOf msg) else lastTs pre := by
  rw [lastTs, List.filter_append]
  cases hlists : lists msg <;> simp [hlists, lastTs]

theorem exists_of_lastTs {ts : ℕ} (h : lastTs pre = some ts) : ∃ msg ∈ pre, tsOf msg = ts := by
  obtain ⟨msg, hmsg, hts⟩ := Option.map_eq_some_iff.mp h
  exact ⟨msg, (List.mem_filter.mp (List.mem_of_getLast? hmsg)).1, hts⟩

theorem le_lastTs (hsorted : pre.Pairwise fun msg msg' => tsOf msg ≤ tsOf msg') (hmsg : msg ∈ pre)
    (hlists : lists msg = true) : ∃ ts, lastTs pre = some ts ∧ tsOf msg ≤ ts := by
  induction pre using List.reverseRecOn with
  | nil => cases hmsg
  | append_singleton pre last ih =>
    obtain ⟨hpre, -, hlast⟩ := List.pairwise_append.mp hsorted
    rw [lastTs_concat]
    rcases List.mem_append.mp hmsg with hmem | hmem
    · cases hl : lists last with
      | true => exact ⟨tsOf last, rfl, hlast msg hmem last (List.mem_singleton_self last)⟩
      | false => exact ih hpre hmem
    · rw [List.mem_singleton.mp hmem] at hlists ⊢
      rw [if_pos hlists]
      exact ⟨tsOf last, rfl, le_rfl⟩

theorem bookAfter_concat (pre : List OkxWsMessage) (msg : OkxWsMessage) :
    bookAfter (pre ++ [msg]) = processMsg msg none (bookAfter pre) := by
  rw [bookAfter, List.foldl_append]
  rfl

/-- Messages without levels can be left out. -/
theorem bookAfter_filter (hbooks : ∀ msg ∈ pre, BooksMessage msg) {p : OkxWsMessage → Bool}
    (hp : ∀ msg ∈ pre, p msg = false → lists msg = false) :
    bookAfter (pre.filter p) = bookAfter pre := by
  induction pre using List.reverseRecOn with
  | nil => rfl
  | append_singleton pre last ih =>
    obtain ⟨hpre, hlast⟩ := List.forall_mem_append.mp hbooks
    obtain ⟨hppre, hplast⟩ := List.forall_mem_append.mp hp
    rw [List.filter_append, bookAfter_concat, ← ih hpre hppre]
    cases hl : p last with
    | true => rw [List.filter_cons_of_pos hl, List.filter_nil, bookAfter_concat]
    | false =>
      rw [List.filter_cons_of_neg (by simp [hl]), List.filter_nil, List.append_nil,
        processMsg_of_not_lists (hlast last (List.mem_singleton_self last))
          (hplast last (List.mem_singleton_self last) hl)]

/-- What the reader is about after the rows of the messages `pre`. -/
structure Replayed (pre : List OkxWsMessage) (r : Reader) (ys : Yields) : Prop where
  wf : r.Wf
  currentTs : r.currentTs = lastTs pre
  snapshotCleared : r.snapshotCleared = pre.any fun msg =>
    decide (lastTs pre = some (tsOf msg)) && (isSnapshot msg && lists msg)
  book : Agrees r.book (bookAfter pre)
  /-- The earlier timestamps are out, and at each of them the two agreed. -/
  yielded : ∀ y ∈ ys.contents, (∃ ts, lastTs pre = some ts ∧ y.1 < ts) ∧
    Agrees y.2 (bookAfter (pre.filter fun msg => tsOf msg ≤ y.1))
  sorted : ys.contents.Pairwise fun y y' => y.1 < y'.1
  complete : ∀ msg ∈ pre, lists msg = true →
    lastTs pre = some (tsOf msg) ∨ ∃ book, (tsOf msg, book) ∈ ys.contents

theorem replayed_nil : Replayed [] {} [] where
  wf := wf_start
  currentTs := rfl
  snapshotCleared := rfl
  book s q := by cases s <;> rfl
  yielded y hy := by cases hy
  sorted := List.Pairwise.nil
  complete msg hmsg := by cases hmsg

/-- A message without levels. -/
theorem Replayed.idle (h : Replayed pre r ys) (hmsg : BooksMessage msg)
    (hlists : lists msg = false) : Replayed (pre ++ [msg]) r ys := by
  have hts : lastTs (pre ++ [msg]) = lastTs pre := by
    rw [lastTs_concat, if_neg (by simp [hlists])]
  have hafter : ∀ msgs, bookAfter (msgs ++ [msg]) = bookAfter msgs := by
    intro msgs
    rw [bookAfter_concat, processMsg_of_not_lists hmsg hlists]
  refine ⟨h.wf, ?_, ?_, ?_, ?_, h.sorted, ?_⟩
  · rw [hts, h.currentTs]
  · rw [hts, h.snapshotCleared, List.any_append]
    simp [hlists]
  · rw [hafter]
    exact h.book
  · intro y hy
    obtain ⟨hlt, hagrees⟩ := h.yielded y hy
    rw [hts, List.filter_append]
    refine ⟨hlt, ?_⟩
    by_cases hle : tsOf msg ≤ y.1
    · rw [List.filter_cons_of_pos (by simpa using hle), List.filter_nil, hafter]
      exact hagrees
    · rw [List.filter_cons_of_neg (by simpa using hle), List.filter_nil, List.append_nil]
      exact hagrees
  · intro msg' hmsg' hlists'
    rw [hts]
    rcases List.mem_append.mp hmsg' with hmem | hmem
    · exact h.complete msg' hmem hlists'
    · rw [List.mem_singleton.mp hmem, hlists] at hlists'
      cases hlists'

theorem lastTs_le (hsorted : (pre ++ [msg]).Pairwise fun msg msg' => tsOf msg ≤ tsOf msg') {ts : ℕ}
    (h : lastTs pre = some ts) : ts ≤ tsOf msg := by
  obtain ⟨msg', hmem, rfl⟩ := exists_of_lastTs h
  exact (List.pairwise_append.mp hsorted).2.2 msg' hmem msg (List.mem_singleton_self msg)

/-- The flag of the reader says whether a snapshot came before, when the timestamp stays. -/
theorem Replayed.cleared_eq_seen (h : Replayed pre r ys)
    (hsorted : (pre ++ [msg]).Pairwise fun msg msg' => tsOf msg ≤ tsOf msg') :
    (decide (r.currentTs = some (tsOf msg)) && r.snapshotCleared) = seen pre msg := by
  rw [h.currentTs, h.snapshotCleared, seen]
  by_cases hsame : lastTs pre = some (tsOf msg)
  · simp only [hsame, decide_true, Bool.true_and, Option.some_inj, eq_comm]
  · rw [decide_eq_false hsame, Bool.false_and, eq_comm, List.any_eq_false]
    intro msg' hmem hseen
    simp only [Bool.and_eq_true, decide_eq_true_eq] at hseen
    obtain ⟨heq, -, hlists⟩ := hseen
    obtain ⟨ts, hts, hle⟩ := le_lastTs (List.pairwise_append.mp hsorted).1 hmem hlists
    have hge := lastTs_le hsorted hts
    exact hsame (by rw [hts, le_antisymm hge (by omega)])

/-- What is pending when a new timestamp comes: the two agree on everything up to it. -/
theorem Replayed.pending (h : Replayed pre r ys) (hbooks : ∀ msg ∈ pre, BooksMessage msg)
    (hsorted : pre.Pairwise fun msg msg' => tsOf msg ≤ tsOf msg') {y : ℕ × Book}
    (hy : y ∈ r.pending) : lastTs pre = some y.1 ∧
      Agrees y.2 (bookAfter (pre.filter fun msg => tsOf msg ≤ y.1)) := by
  obtain ⟨ts, hts, rfl⟩ := Option.map_eq_some_iff.mp hy
  rw [h.currentTs] at hts
  refine ⟨hts, ?_⟩
  have hfilter : bookAfter (pre.filter fun msg => tsOf msg ≤ ts) = bookAfter pre := by
    apply bookAfter_filter hbooks
    intro msg hmem hout
    by_contra hlists
    obtain ⟨ts', hts', hle⟩ := le_lastTs hsorted hmem (by simpa using hlists)
    rw [hts, Option.some_inj] at hts'
    simp only [decide_eq_false_iff_not] at hout
    omega
  rw [hfilter]
  exact h.book

theorem ts_levelRow (ts : ℕ) (action : Option String) (e : Side × F64 × F64) :
    (levelRow ts action e).ts = ts ∧ (levelRow ts action e).action = action := by
  obtain ⟨s, e⟩ := e
  cases s <;> exact ⟨rfl, rfl⟩

/-- What a message makes the reader yield. -/
theorem Replayed.newly (h : Replayed pre r ys) (hbooks : ∀ msg ∈ pre, BooksMessage msg)
    (hsorted : (pre ++ [msg]).Pairwise fun msg msg' => tsOf msg ≤ tsOf msg') :
    ∀ y ∈ if r.currentTs = some (tsOf msg) then [] else r.pending.toList,
      lastTs pre = some y.1 ∧ y.1 < tsOf msg ∧
        Agrees y.2 (bookAfter (pre.filter fun msg => tsOf msg ≤ y.1)) := by
  intro y hy
  split at hy
  · cases hy
  · rename_i hother
    have hpre := (List.pairwise_append.mp hsorted).1
    obtain ⟨hts, hagrees⟩ := h.pending hbooks hpre (Option.mem_toList.mp hy)
    rw [h.currentTs, hts, Option.some_inj] at hother
    exact ⟨hts, lt_of_le_of_ne (lastTs_le hsorted hts) hother, hagrees⟩

/-- When the reader comes to the timestamp `ts`, every other one is out or comes out. -/
theorem Replayed.complete_after (h : Replayed pre r ys) (ts : ℕ) {m : OkxWsMessage}
    (hm : m ∈ pre) (hlists : lists m = true) :
    some ts = some (tsOf m) ∨ ∃ book, (tsOf m, book)
      ∈ ys.contents ++ if r.currentTs = some ts then [] else r.pending.toList := by
  rcases h.complete m hm hlists with hcurrent | ⟨book, hbook⟩
  · by_cases hsame : lastTs pre = some ts
    · exact Or.inl (hsame.symm.trans hcurrent)
    · right
      rw [← h.currentTs] at hcurrent hsame
      refine ⟨r.book, List.mem_append_right _ ?_⟩
      rw [if_neg hsame, Reader.pending, hcurrent]
      exact List.mem_singleton_self _
  · exact Or.inr ⟨book, List.mem_append_left _ hbook⟩

/-- A message with levels. -/
theorem Replayed.step (h : Replayed pre r ys) (hbooks : ∀ m ∈ pre ++ [msg], BooksMessage m)
    (hsorted : (pre ++ [msg]).Pairwise fun msg msg' => tsOf msg ≤ tsOf msg')
    (halike : Alike pre msg) (hlists : lists msg = true) :
    ∃ (r' : Reader) (ys' : Yields), (rowsOf msg).foldl (next collect) (r, ys) = (r', ys') ∧
      Replayed (pre ++ [msg]) r' ys' := by
  obtain ⟨hbefore, hlast⟩ := List.forall_mem_append.mp hbooks
  have hmsg := hlast msg (List.mem_singleton_self msg)
  have hne : rowsOf msg ≠ [] := by
    rw [Ne, rowsOf_eq_nil hmsg halike.1, hlists]
    decide
  have hrows : ∀ row ∈ rowsOf msg, row.ts = tsOf msg ∧ row.isSnapshot = isSnapshot msg := by
    intro row hrow
    obtain ⟨l, -, rfl⟩ := List.mem_map.mp hrow
    obtain ⟨hts, haction⟩ := ts_levelRow (tsOf msg) msg.action (l.1, rowOf l.2)
    exact ⟨hts, by rw [Row.isSnapshot, haction, isSnapshot]⟩
  have hfresh : r.currentTs = none → r.snapshotCleared = false := by
    intro hnone
    rw [h.currentTs] at hnone
    rw [h.snapshotCleared, hnone, List.any_eq_false]
    simp
  obtain ⟨r', ys', hfold, hwf', hts', hcleared', hbook', hys'⟩ :=
    foldl_next_rows hne (fun row hrow => (hrows row hrow).1) (fun row hrow => (hrows row hrow).2)
      h.wf hfresh ys
  rw [h.cleared_eq_seen hsorted] at hcleared' hbook'
  have hnow : lastTs (pre ++ [msg]) = some (tsOf msg) := by rw [lastTs_concat, if_pos hlists]
  have hnew := h.newly hbefore hsorted
  have hall : ∀ y ∈ ys'.contents, y.1 < tsOf msg ∧
      Agrees y.2 (bookAfter (pre.filter fun msg => tsOf msg ≤ y.1)) := by
    intro y hy
    rw [hys'] at hy
    rcases List.mem_append.mp hy with hy | hy
    · obtain ⟨⟨ts, hts, hlt⟩, hagrees⟩ := h.yielded y hy
      exact ⟨hlt.trans_le (lastTs_le hsorted hts), hagrees⟩
    · exact (hnew y hy).2
  -- the fields of `Replayed` in their order
  refine ⟨r', ys', hfold, hwf', hts'.trans hnow.symm, ?_, ?_, ?_, ?_, ?_⟩
  · rw [hcleared', hnow, List.any_append, seen]
    simp [hlists, eq_comm]
  · rw [hbook', bookAfter_concat]
    exact agrees_applyRows hmsg halike.1 h.book _ fun hsnapshot => halike.2 hsnapshot hlists
  · intro y hy
    obtain ⟨hlt, hagrees⟩ := hall y hy
    refine ⟨⟨tsOf msg, hnow, hlt⟩, ?_⟩
    rw [List.filter_append, List.filter_cons_of_neg (by simpa using hlt), List.filter_nil,
      List.append_nil]
    exact hagrees
  · rw [hys']
    apply List.pairwise_append.mpr
    refine ⟨h.sorted, ?_, ?_⟩
    · split
      · exact List.Pairwise.nil
      · cases r.pending with
        | none => exact List.Pairwise.nil
        | some y => exact List.pairwise_singleton _ y
    · intro y hy y' hy'
      obtain ⟨⟨ts, hts, hlt⟩, -⟩ := h.yielded y hy
      obtain ⟨hts', -⟩ := hnew y' hy'
      rw [hts, Option.some_inj] at hts'
      rwa [← hts']
  · intro m hm hlistsM
    rw [hnow, hys']
    rcases List.mem_append.mp hm with hmem | hmem
    · exact h.complete_after (tsOf msg) hmem hlistsM
    · rw [List.mem_singleton.mp hmem]
      exact Or.inl rfl

/-- The run: message after message. -/
theorem replayed_run {msgs : List OkxWsMessage} (hbooks : ∀ msg ∈ msgs, BooksMessage msg)
    (hsorted : msgs.Pairwise fun msg msg' => tsOf msg ≤ tsOf msg')
    (halike : ∀ pre msg, pre ++ [msg] <+: msgs → Alike pre msg) :
    ∃ (r : Reader) (ys : Yields),
      (msgs.flatMap rowsOf).foldl (next collect) ({}, []) = (r, ys) ∧ Replayed msgs r ys := by
  induction msgs using List.reverseRecOn with
  | nil => exact ⟨{}, [], rfl, replayed_nil⟩
  | append_singleton pre msg ih =>
    obtain ⟨hbefore, hlast⟩ := List.forall_mem_append.mp hbooks
    have hmsg := hlast msg (List.mem_singleton_self msg)
    have hnow : Alike pre msg := halike pre msg List.prefix_rfl
    obtain ⟨r, ys, hfold, hreplayed⟩ := ih hbefore (List.pairwise_append.mp hsorted).1
      fun pre' msg' hpre => halike pre' msg' (hpre.trans (List.prefix_append _ _))
    rw [List.flatMap_append, List.foldl_append, hfold, List.flatMap_singleton]
    cases hlists : lists msg with
    | true => exact hreplayed.step hbooks hsorted hnow hlists
    | false =>
      rw [(rowsOf_eq_nil hmsg hnow.1).mpr hlists]
      exact ⟨r, ys, rfl, hreplayed.idle hmsg hlists⟩

end Run

/-- **The replay and the book.** In every run of book messages that meet the condition, the
timestamps of the rows are yielded once each and in order, and what is yielded for one is the book
after all messages up to it. -/
theorem replay_agrees (msgs : List OkxWsMessage) (batches : List (List Row))
    (hbooks : ∀ msg ∈ msgs, BooksMessage msg)
    (hsorted : msgs.Pairwise fun msg msg' => tsOf msg ≤ tsOf msg')
    (hrows : batches.flatten = msgs.flatMap rowsOf)
    (hC : Trace.EachStep Trace.remember Alike [] msgs) :
    (∀ y ∈ (yields batches).contents,
        Agrees y.2 (bookAfter (msgs.filter fun msg => tsOf msg ≤ y.1))) ∧
      (∀ msg ∈ msgs, rowsOf msg ≠ [] → ∃ book, (tsOf msg, book) ∈ (yields batches).contents) ∧
      (yields batches).contents.Pairwise fun y y' => y.1 < y'.1 := by
  have halike : ∀ pre msg, pre ++ [msg] <+: msgs → Alike pre msg := by
    intro pre msg hpre
    have hnow := hC pre msg hpre
    rwa [Trace.foldl_remember, List.nil_append] at hnow
  obtain ⟨r, ys, hfold, h⟩ := replayed_run hbooks hsorted halike
  have hcontents : (yields batches).contents = ys.contents ++ r.pending.toList := by
    rw [yields, readLobIter_flatten, hrows, hfold, Reader.contents_finish h.wf]
  rw [hcontents]
  refine ⟨?_, ?_, ?_⟩
  · intro y hy
    rcases List.mem_append.mp hy with hy | hy
    · exact (h.yielded y hy).2
    · exact (h.pending hbooks hsorted (Option.mem_toList.mp hy)).2
  · intro msg hmem hne
    obtain ⟨pre, post, rfl⟩ := List.append_of_mem hmem
    have hread : readable msg = true := (halike pre msg ⟨post, by simp⟩).1
    have hlists : lists msg = true := by
      by_contra hnone
      exact hne ((rowsOf_eq_nil (hbooks msg hmem) hread).mpr (by simpa using hnone))
    rcases h.complete msg hmem hlists with hlast | ⟨book, hbook⟩
    · refine ⟨r.book, List.mem_append_right _ ?_⟩
      rw [Reader.pending, h.currentTs, hlast]
      exact List.mem_singleton_self _
    · exact ⟨book, List.mem_append_left _ hbook⟩
  · apply List.pairwise_append.mpr
    refine ⟨h.sorted, ?_, ?_⟩
    · cases r.pending with
      | none => exact List.Pairwise.nil
      | some y => exact List.pairwise_singleton _ y
    · intro y hy y' hy'
      obtain ⟨⟨ts, hts, hlt⟩, -⟩ := h.yielded y hy
      have hts' := (h.pending hbooks hsorted (Option.mem_toList.mp hy')).1
      rw [hts, Option.some_inj] at hts'
      rwa [← hts']

/-! ## Examples -/

/-- A book message with a timestamp. -/
def stamped (ts action : String) (bids asks : List (String × String)) : OkxWsMessage :=
  let levels (side : List (String × String)) : Value :=
    .array (side.map fun l => .array [.string l.1, .string l.2])
  { arg := some { channel := "books", instId := "BTC-USDT" }
    action := some action
    data := [.object [("bids", levels bids), ("asks", levels asks), ("ts", .string ts)]] }

/-- A snapshot, an update, and the snapshot of a new connection. -/
def reconnected : List OkxWsMessage :=
  [stamped "1" "snapshot" [("100", "1")] [("101", "2")],
    stamped "2" "update" [("100", "0"), ("99", "3")] [],
    stamped "3" "snapshot" [("98", "1")] [("102", "1")]]

theorem replay_agrees_reconnected :
    (∀ y ∈ (yields [reconnected.flatMap rowsOf]).contents,
        Agrees y.2 (bookAfter (reconnected.filter fun msg => tsOf msg ≤ y.1))) ∧
      (∀ msg ∈ reconnected, rowsOf msg ≠ [] →
        ∃ book, (tsOf msg, book) ∈ (yields [reconnected.flatMap rowsOf]).contents) ∧
      (yields [reconnected.flatMap rowsOf]).contents.Pairwise fun y y' => y.1 < y'.1 := by
  apply replay_agrees
  · decide +kernel
  · decide +kernel
  · exact List.flatten_singleton
  · simp only [reconnected, Trace.eachStep_cons, Trace.eachStep_nil, and_true]
    decide +kernel

/-- A snapshot without asks: the reader drops the asks that the book keeps. -/
theorem one_sided_snapshot_replayed :
    ¬ ∀ (msgs : List OkxWsMessage) (batches : List (List Row)),
      (∀ msg ∈ msgs, BooksMessage msg) →
      (msgs.Pairwise fun msg msg' => tsOf msg ≤ tsOf msg') →
      batches.flatten = msgs.flatMap rowsOf →
      ∀ y ∈ (yields batches).contents,
        Agrees y.2 (bookAfter (msgs.filter fun msg => tsOf msg ≤ y.1)) := by
  intro h
  have hrun := h [stamped "1" "snapshot" [("100", "1")] [("101", "2")],
    stamped "2" "snapshot" [("99", "1")] []] _ (by decide +kernel) (by decide +kernel)
    List.flatten_singleton
  have hask := fun y hy => hrun y hy .ask (.fin 101)
  exact absurd hask (by decide +kernel)

-- Neither is a size of zero taken alike, nor a second snapshot within one millisecond.
example :
    let first := stamped "1" "snapshot" [("100", "1")] [("101", "2")]
    ¬ Alike [] (stamped "1" "snapshot" [("100", "0")] []) ∧
      ¬ Alike [first] (stamped "1" "snapshot" [("99", "1")] [("101", "2")]) ∧
      Alike [first] (stamped "1" "snapshot" [("100", "3")] []) := by
  decide +kernel

end Python
end Cryptomeria
