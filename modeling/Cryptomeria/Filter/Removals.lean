import Cryptomeria.Exchange
import Cryptomeria.Lib.Selection

/-!
# Removals of unknown prices

A diff that removes a price which the book does not hold and which no other level of the message
names has nothing to do there: without a filter it could be left out. The count of `filter_diff`
takes it for a level, though, and a `MaxLevel` filter then refuses a level that would have fitted.

`withoutIdle` is the message without such removals. It leads to the same book exactly when every
level that only the shorter message gets through is made up for by another one at its price
(`IdleSettled`).
-/

set_option autoImplicit false

namespace Cryptomeria

open WriteLog

/-! ## The filter of an update as a selection -/

section Verdict

variable {s : Side} {grow : Bool} {filter : Option LobFilter} {m : Levels s}

/-- The filter, if there is one, lets an entry through that the entries `pre` precede. -/
def verdict (grow : Bool) (filter : Option LobFilter) (m : Levels s) (pre : List (F64 × F64))
    (e : F64 × F64) : Bool :=
  filter.all fun f => passes grow f m pre e

theorem selects_letThrough : Selects (verdict grow filter m) (letThrough grow filter m) := by
  cases filter with
  | none => exact ⟨rfl, fun es e => rfl⟩
  | some f => exact ⟨rfl, admitted_concat grow f m⟩

/-- Fewer levels before it can only help an entry. -/
theorem verdict_of_sublist {pre pre' : List (F64 × F64)} {e : F64 × F64} (hsub : pre'.Sublist pre)
    (h : verdict grow filter m pre e = true) : verdict grow filter m pre' e = true := by
  cases filter with
  | none => rfl
  | some f =>
    cases f with
    | maxLevelPct pct ar => exact h
    | maxLevel n =>
      have hfewer : taken grow m pre' ≤ taken grow m pre := by
        unfold taken
        split
        · exact (hsub.filter _).length_le
        · exact le_refl _
      simp only [verdict, Option.all_some, passes, admits_maxLevel, Bool.or_eq_true,
        decide_eq_true_eq] at h ⊢
      rcases h with h | h
      · exact Or.inl h
      · exact Or.inr (by omega)

/-- Only an entry that stores a size where nothing is held depends on what comes before it. -/
theorem new_of_verdict_ne {pre pre' : List (F64 × F64)} {e : F64 × F64}
    (h : verdict grow filter m pre e = false) (h' : verdict grow filter m pre' e = true) :
    m[e.1]? = none ∧ (writeOf e).2 = some e.2 := by
  cases filter with
  | none => simp [verdict] at h
  | some f =>
    cases f with
    | maxLevelPct pct ar =>
      have hsame : verdict grow (some (.maxLevelPct pct ar)) m pre e
          = verdict grow (some (.maxLevelPct pct ar)) m pre' e := rfl
      rw [hsame, h'] at h
      simp at h
    | maxLevel n =>
      simp only [verdict, Option.all_some, passes, admits_maxLevel, Bool.or_eq_false_iff] at h
      obtain ⟨⟨hnz, hnew⟩, -⟩ := h
      exact ⟨Std.ExtTreeMap.getElem?_eq_none_of_contains_eq_false hnew,
        writeOf_snd_eq_some.mpr ⟨rfl, hnz⟩⟩

end Verdict

namespace Bitstamp

/-! ## Idle removals -/

/-- The entry removes a price that is not held and that no other level names. -/
def removesNothing {s : Side} (m : Levels s) (levels : List (String × String))
    (e : F64 × F64) : Bool :=
  e.2.eq F64.zero && !m.contains e.1 && levels.countP (fun l => parseF64 l.1 = some e.1) == 1

/-- The levels without the removals of nothing. -/
def withoutIdleSide {s : Side} (m : Levels s) (levels : List (String × String)) :
    List (String × String) :=
  levels.filter fun level => !(parseLevel level).any (removesNothing m levels)

/-- The message without the removals that remove nothing from `b`. -/
def withoutIdle (b : OrderBook) (msg : BitstampWsMessage) : BitstampWsMessage :=
  match payload msg with
  | some ob =>
    { msg with data := some (OrderBookData.toValue { ob with
        bids := withoutIdleSide b.bids ob.bids
        asks := withoutIdleSide b.asks ob.asks }) }
  | none => msg

/-- The verdict of the filter on an entry of the shorter message. -/
def verdictWithoutIdle {s : Side} (filter : Option LobFilter) (m : Levels s)
    (levels : List (String × String)) (pre : List (F64 × F64)) (e : F64 × F64) : Bool :=
  !removesNothing m levels e
    && verdict true filter m (pre.filter fun e' => !removesNothing m levels e') e

/-- Each entry that only the shorter message gets through is followed by another one that gets
through at its price, or repeats the size that stands before it. -/
def IdleSettled (b : OrderBook) (filter : Option LobFilter) (msg : BitstampWsMessage) : Prop :=
  ∀ ob ∈ payload msg, ∀ s q,
    Settled (verdict true filter (b.toOrderBook.side s))
      (verdictWithoutIdle filter (b.toOrderBook.side s) (ob.side s)) writeOf
      ((ob.side s).filterMap parseLevel) q

section Side

variable {s : Side} {m : Levels s} {levels : List (String × String)}

theorem filterMap_withoutIdleSide :
    (withoutIdleSide m levels).filterMap parseLevel
      = (levels.filterMap parseLevel).filter fun e => !removesNothing m levels e := by
  rw [withoutIdleSide, List.filterMap_filter, List.filter_filterMap]
  refine List.filterMap_congr fun level _ => ?_
  cases hp : parseLevel level with
  | none => simp
  | some e => cases hr : removesNothing m levels e <;> simp [hr, Option.filter_some]

theorem price_of_parseLevel {level : String × String} {e : F64 × F64}
    (h : parseLevel level = some e) : parseF64 level.1 = some e.1 := by
  simp only [parseLevel, Option.bind_eq_bind, Option.bind_eq_some_iff, Option.pure_def,
    Option.some_inj] at h
  obtain ⟨price, hprice, amount, -, rfl⟩ := h
  exact hprice

/-- A removal of nothing is the only entry at its price. -/
theorem eq_of_removesNothing {e e' : F64 × F64} (he : e ∈ levels.filterMap parseLevel)
    (he' : e' ∈ levels.filterMap parseLevel) (hprice : e'.1 = e.1)
    (h : removesNothing m levels e = true) : e' = e := by
  simp only [removesNothing, Bool.and_eq_true, beq_iff_eq] at h
  have hone := h.2
  rw [List.countP_eq_length_filter, List.length_eq_one_iff] at hone
  obtain ⟨level, hlevel⟩ := hone
  -- every entry at the price comes from the one level that names it
  have honly : ∀ x ∈ levels.filterMap parseLevel, x.1 = e.1 → parseLevel level = some x := by
    intro x hx hxe
    obtain ⟨l, hl, hparse⟩ := List.mem_filterMap.mp hx
    have hmem : l ∈ levels.filter fun l => parseF64 l.1 = some e.1 := by
      rw [List.mem_filter, decide_eq_true_eq, price_of_parseLevel hparse, hxe]
      exact ⟨hl, rfl⟩
    rw [hlevel, List.mem_singleton] at hmem
    rw [← hmem]
    exact hparse
  exact Option.some_inj.mp ((honly e' he' hprice).symm.trans (honly e he rfl))

theorem selects_withoutIdle (filter : Option LobFilter) :
    Selects (verdictWithoutIdle filter m levels) (fun es =>
      letThrough true filter m (es.filter fun e => !removesNothing m levels e)) :=
  selects_letThrough.comp_filter fun e => !removesNothing m levels e

/-- At the price of a removal of nothing the whole message leaves nothing either. -/
theorem getElem?_of_removesNothing (filter : Option LobFilter) {e : F64 × F64}
    (he : e ∈ levels.filterMap parseLevel) (h : removesNothing m levels e = true) :
    (replay m (writes (letThrough true filter m (levels.filterMap parseLevel))))[e.1]? = none := by
  have hidle := h
  simp only [removesNothing, Bool.and_eq_true, Bool.not_eq_true'] at hidle
  obtain ⟨⟨hzero, hnew⟩, -⟩ := hidle
  rw [getElem?_replay]
  cases hlast : last (writes (letThrough true filter m (levels.filterMap parseLevel))) e.1 with
  | none => exact Std.ExtTreeMap.getElem?_eq_none_of_contains_eq_false hnew
  | some o =>
    obtain ⟨e', he', hw⟩ := List.mem_map.mp (mem_of_last_eq_some hlast)
    have hmem := (selects_letThrough.sublist _).subset he'
    have hprice : e'.1 = e.1 := congrArg (fun w : F64 × Option F64 => w.1) hw
    rw [eq_of_removesNothing he hmem hprice h] at hw
    have ho : o = none := by simpa [writeOf, hzero] using (congrArg Prod.snd hw).symm
    rw [ho]
    rfl

/-- The shorter message names no price of a removal of nothing. -/
theorem last_withoutIdle_eq_none (filter : Option LobFilter) {e : F64 × F64}
    (he : e ∈ levels.filterMap parseLevel) (h : removesNothing m levels e = true) :
    last (writes (letThrough true filter m
      ((levels.filterMap parseLevel).filter fun e => !removesNothing m levels e))) e.1 = none := by
  rw [last_eq_none_iff]
  intro w hw hprice
  obtain ⟨e', he', rfl⟩ := List.mem_map.mp hw
  have hmem := (selects_letThrough.sublist _).subset he'
  rw [List.mem_filter] at hmem
  rw [eq_of_removesNothing he hmem.1 hprice h, h] at hmem
  simp at hmem

/-- **One level of one side.** -/
theorem getElem?_withoutIdle_iff (filter : Option LobFilter) (q : F64) :
    (replay m (writes (letThrough true filter m
        ((withoutIdleSide m levels).filterMap parseLevel))))[q]?
      = (replay m (writes (letThrough true filter m (levels.filterMap parseLevel))))[q]? ↔
    Settled (verdict true filter m) (verdictWithoutIdle filter m levels) writeOf
      (levels.filterMap parseLevel) q := by
  rw [filterMap_withoutIdleSide]
  by_cases hidle : ∃ e ∈ levels.filterMap parseLevel, e.1 = q ∧ removesNothing m levels e = true
  · obtain ⟨e, he, rfl, hr⟩ := hidle
    -- both messages leave the price absent, and nothing else is said about it
    apply iff_of_true
    · rw [getElem?_of_removesNothing filter he hr, getElem?_replay,
        last_withoutIdle_eq_none filter he hr]
      simp only [removesNothing, Bool.and_eq_true, Bool.not_eq_true'] at hr
      exact Std.ExtTreeMap.getElem?_eq_none_of_contains_eq_false hr.1.2
    · intro pre e' post hsplit hprice _ hpass
      have hmem : e' ∈ levels.filterMap parseLevel := by simp [hsplit]
      rw [eq_of_removesNothing he hmem hprice hr, verdictWithoutIdle, hr] at hpass
      simp at hpass
  · have hkept : ∀ e ∈ levels.filterMap parseLevel, e.1 = q →
        removesNothing m levels e = false := by
      intro e he hprice
      by_contra hr
      exact hidle ⟨e, he, hprice, by simpa using hr⟩
    -- no entry at the price is left out: two verdicts on the same entries
    rw [getElem?_replay, getElem?_replay]
    refine selects_letThrough.getD_last_eq_iff (selects_withoutIdle filter) ?_ ?_
    · intro pre e he hprice hpass
      rw [verdictWithoutIdle, hkept e he hprice]
      exact verdict_of_sublist List.filter_sublist hpass
    · intro pre e he hprice hrefused hpass
      rw [verdictWithoutIdle, hkept e he hprice] at hpass
      obtain ⟨hnew, hstores⟩ := new_of_verdict_ne hrefused hpass
      replace hprice : e.1 = q := hprice
      rw [← hprice]
      exact ⟨hnew, by rw [hstores]; simp⟩

end Side

/-! ## The whole message -/

/-- A diff stays one when its arrays are replaced. -/
theorem kindOf_replaceArrays {msg : BitstampWsMessage} (hk : kindOf msg = .update)
    (ob : OrderBookData) : kindOf { msg with data := some ob.toValue } = .update := by
  obtain ⟨hm, channel, -, -, hc, hlive, -, -⟩ := kindOf_eq_update hk
  refine kindOf_of_arrays hm hc hlive rfl ?_
  rw [OrderBookData.ofValue_toValue]
  rfl

theorem kindOf_withoutIdle {b : OrderBook} {msg : BitstampWsMessage}
    (hk : kindOf msg = .update) : kindOf (withoutIdle b msg) = .update := by
  obtain ⟨ob, hp⟩ := payload_of_update hk
  rw [withoutIdle, hp]
  exact kindOf_replaceArrays hk _

theorem entries_withoutIdle {b : OrderBook} {msg : BitstampWsMessage} {ob : OrderBookData}
    (hp : payload msg = some ob) (s : Side) :
    entries (withoutIdle b msg) s
      = (withoutIdleSide (b.toOrderBook.side s) (ob.side s)).filterMap parseLevel := by
  have hp' : payload (withoutIdle b msg) = some { ob with
      bids := withoutIdleSide b.bids ob.bids
      asks := withoutIdleSide b.asks ob.asks } := by
    rw [withoutIdle, hp]
    exact OrderBookData.ofValue_toValue _
  rw [entries, hp']
  cases s <;> rfl

/-- Books with the same sides after a diff are the same. -/
theorem processMsg_eq_iff {b : OrderBook} {msg msg' : BitstampWsMessage}
    (hk : kindOf msg = .update) (hk' : kindOf msg' = .update) (filter : Option LobFilter) :
    OrderBook.processMsg msg' filter b = OrderBook.processMsg msg filter b ↔
      ∀ s (q : F64), ((OrderBook.processMsg msg' filter b).toOrderBook.side s)[q]?
        = ((OrderBook.processMsg msg filter b).toOrderBook.side s)[q]? := by
  constructor
  · intro h s q
    rw [h]
  · intro h
    have hsides : (OrderBook.processMsg msg' filter b).toOrderBook
        = (OrderBook.processMsg msg filter b).toOrderBook :=
      Cryptomeria.OrderBook.ext_side fun s => Std.ExtTreeMap.ext_getElem? (h s)
    have horders : (OrderBook.processMsg msg' filter b).orders
        = (OrderBook.processMsg msg filter b).orders := by
      rw [orders_processMsg (by rw [hk']; simp), orders_processMsg (by rw [hk]; simp), hk, hk']
    have hdepth : (OrderBook.processMsg msg' filter b).snapshotDepth
        = (OrderBook.processMsg msg filter b).snapshotDepth := by
      rw [OrderBook.snapshotDepth_processMsg, OrderBook.snapshotDepth_processMsg]
    exact OrderBook.mk.injEq .. ▸ ⟨hsides, horders, hdepth⟩

/-- **When removals of nothing do nothing.** A diff leads to the same book without its removals of
prices that are neither held nor named twice if and only if every level that the filter lets
through only then is followed by another one that gets through at its price, or repeats the size
that stands before it. -/
theorem withoutIdle_iff {msg : BitstampWsMessage} (hk : kindOf msg = .update)
    (filter : Option LobFilter) (b : OrderBook) :
    OrderBook.processMsg (withoutIdle b msg) filter b = OrderBook.processMsg msg filter b ↔
      IdleSettled b filter msg := by
  obtain ⟨ob, hp⟩ := payload_of_update hk
  have hk' := kindOf_withoutIdle (b := b) hk
  have hside : ∀ {msg' : BitstampWsMessage} (s : Side), kindOf msg' = .update →
      (OrderBook.processMsg msg' filter b).toOrderBook.side s
        = replay (b.toOrderBook.side s) (writes (letThrough true filter (b.toOrderBook.side s)
            (entries msg' s))) := by
    intro msg' s hk'
    exact (model b.snapshotDepth).side_update msg' filter ⟨b, rfl⟩ s hk'
  have hentries : ∀ s, entries msg s = (ob.side s).filterMap parseLevel := by
    intro s
    rw [entries, hp]
    rfl
  rw [processMsg_eq_iff hk hk']
  simp only [IdleSettled, hp, Option.mem_some_iff, forall_eq']
  refine forall_congr' fun s => forall_congr' fun q => ?_
  rw [hside s hk', hside s hk, entries_withoutIdle hp, hentries s]
  exact getElem?_withoutIdle_iff filter q

/-- An unknown bid is removed and a new one comes after it. -/
def idleFirst : BitstampWsMessage := bookMsg "data" [("99", "0"), ("100", "1")] []

/-- With room for one level. -/
theorem withoutIdle_iff_idleFirst :
    OrderBook.processMsg (withoutIdle OrderBook.new idleFirst) (some (.maxLevel 1)) OrderBook.new
        = OrderBook.processMsg idleFirst (some (.maxLevel 1)) OrderBook.new ↔
      IdleSettled OrderBook.new (some (.maxLevel 1)) idleFirst :=
  withoutIdle_iff (kindOf_bookMsg_data _ _) _ _

/-- The removal takes the only place: the bid at 100 is refused. -/
theorem idle_removal_takes_place :
    ¬ ∀ (b : OrderBook) (filter : Option LobFilter) (msg : BitstampWsMessage),
      kindOf msg = .update →
        OrderBook.processMsg (withoutIdle b msg) filter b = OrderBook.processMsg msg filter b := by
  intro h
  have hsame := h OrderBook.new (some (.maxLevel 1)) idleFirst (kindOf_bookMsg_data _ _)
  have hbids := congrArg (fun b : OrderBook => b.bids.toList) hsame
  exact absurd hbids (by decide +kernel)

end Bitstamp
end Cryptomeria
