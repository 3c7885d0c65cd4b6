import Cryptomeria.Bitstamp.OrderLevels
import Cryptomeria.Client.MeasuredRows

/-!
# The distance from the best price

`best_diff` is to be the distance of a row from the best price, but it is measured from the first
price that the message lists. `bestDiff_iff` says, from the message and the book before it, where
this is the best price of the book after it.
-/

set_option autoImplicit false

namespace Cryptomeria

open WriteLog

/-- `best_diff` is the distance from the best price of the side. It is not negative where the size
is positive. -/
def LobLevelRow.FromBest {s : Side} (m : Levels s) (row : LobLevelRow) : Prop :=
  ∀ best ∈ m.best, row.bestDiff = s.distance best row.price ∧
    (row.size.gt F64.zero = true → row.bestDiff.ge F64.zero = true)

/-! ## Distances -/

namespace Side

variable {s : Side} {p : F64}

/-- The distance of a number tells the price it is measured from. -/
theorem distance_eq_iff {a c : ℚ} {best : F64} :
    s.distance (.fin a) (.fin c) = s.distance best (.fin c) ↔ F64.fin a = best := by
  constructor
  · intro h
    cases best with
    | fin b =>
      cases s
      · rw [distance, distance, F64.sub_fin, F64.sub_fin, F64.fin.injEq] at h
        rw [sub_left_inj.mp h]
      · rw [distance, distance, F64.sub_fin, F64.sub_fin, F64.fin.injEq] at h
        rw [sub_right_inj.mp h]
    | negInf | posInf | nan => cases s <;> cases h
  · rintro rfl
    rfl

theorem distance_self (a : ℚ) : s.distance (.fin a) (.fin a) = F64.zero := by
  cases s <;> simp [distance, F64.zero]

theorem distance_ge_zero_iff {a c : ℚ} :
    (s.distance (.fin a) (.fin c)).ge F64.zero = true ↔ (s.cmp (.fin a) (.fin c)).isLE := by
  rw [isLE_cmp]
  cases s <;> simp [distance, F64.zero]

end Side

namespace Exchange

/-- A message of the book whose prices are positive. -/
def WellFormedLob : (x : Exchange) → x.model.Msg → Prop
  | okx, msg => (Okx.OkxWsMessage.messageType msg = .l2Snapshot ∨
      Okx.OkxWsMessage.messageType msg = .l2Update) ∧
    ∃ lists, Okx.derivedLists msg = some lists ∧ ∀ s, ReadByBoth Okx.LobLevel.ofValue Okx.deliver
      (levelElements (Okx.OkxWsMessage.data msg) s) (lists s)
  | kraken, msg => (Kraken.KrakenWsMessage.messageType msg = .l2Snapshot ∨
      Kraken.KrakenWsMessage.messageType msg = .l2Update) ∧
    ∃ lists, Kraken.derivedLists msg = some lists ∧ ∀ s, ReadByBoth Kraken.LobLevel.ofValue
      Kraken.deliver (levelElements (Kraken.KrakenWsMessage.data msg) s) (lists s)
  | bitstamp _, msg => Bitstamp.WellFormedLob msg

/-! ## The levels after a message -/

/-- The message is a single order, of which `P` holds. -/
def OfOrder (P : Bitstamp.OrderBook → Bitstamp.OrderEntry → Prop) :
    (x : Exchange) → x.model.Book → x.model.Msg → Prop
  | okx, _, _ => False
  | kraken, _, _ => False
  | bitstamp _, b, msg => ∃ entry, Bitstamp.orderOf msg = some entry ∧ P b.1 entry

section

variable (x : Exchange) (b : x.model.Book) (msg : x.model.Msg) (s : Side) (q : F64)

/-- The last entry of the message for the price has a size, or its order brings the level. -/
def Stores : Prop :=
  (∃ a, lastSize (x.counted msg s) q = some a ∧ a ≠ F64.zero) ∨
    OfOrder (fun b entry => b.Stores entry (s, q)) x b msg

/-- The last entry of the message for the price has size zero, or the message resets the side and
has no entry for the price, or its order takes the level away. -/
def Removes : Prop :=
  lastSize (x.counted msg s) q = some F64.zero ∨
    lastSize (x.counted msg s) q = none ∧ x.resets msg s = true ∨
    OfOrder (fun b entry => b.Removes entry (s, q)) x b msg

end

variable {x : Exchange} {b : x.model.Book} {msg : x.model.Msg} {s : Side} {q : F64}

theorem not_ofOrder {P : Bitstamp.OrderBook → Bitstamp.OrderEntry → Prop}
    (hk : x.model.kind msg ≠ .order) : ¬ OfOrder P x b msg := by
  cases x with
  | okx => exact id
  | kraken => exact id
  | bitstamp depth =>
    rintro ⟨entry, hentry, -⟩
    exact hk (Bitstamp.kindOf_of_orderOf hentry)

theorem mem_step_of_not_order (hk : x.model.kind msg ≠ .order) :
    q ∈ x.model.side (x.model.processMsg msg none b) s ↔
      x.Stores b msg s q ∨ q ∈ x.model.side b s ∧ ¬ x.Removes b msg s q := by
  rw [side_step hk, mem_replay_iff, last_writes, Stores, Removes]
  simp only [not_ofOrder hk, or_false]
  cases lastSize (x.counted msg s) q with
  | none => cases x.resets msg s <;> simp
  | some a =>
    by_cases hzero : a = F64.zero
    · simp [hzero]
    · simp [hzero]

theorem mem_step_order {depth : ℕ} {b : (bitstamp depth).model.Book}
    {msg : (bitstamp depth).model.Msg} (horders : b.1.OrdersPositive)
    {entry : Bitstamp.OrderEntry} {price amount : F64} (horder : Bitstamp.orderOf msg = some entry)
    (hprice : parseF64 entry.price = some price) (hamount : parseF64 entry.amount = some amount)
    (hge : amount.ge F64.zero = true) :
    q ∈ (bitstamp depth).model.side ((bitstamp depth).model.processMsg msg none b) s ↔
      (bitstamp depth).Stores b msg s q ∨
        q ∈ (bitstamp depth).model.side b s ∧ ¬ (bitstamp depth).Removes b msg s q := by
  have hk : Bitstamp.kindOf msg = .order := Bitstamp.kindOf_of_orderOf horder
  have hlast : lastSize ((bitstamp depth).counted msg s) q = none := by
    rw [counted_order (x := bitstamp depth) hk]
    rfl
  have hres : (bitstamp depth).resets msg s = false :=
    resets_eq_false (x := bitstamp depth) (fun h => absurd (hk.symm.trans h) (by simp)) s
  have hof : ∀ P, OfOrder P (bitstamp depth) b msg ↔ P b.1 entry := by
    simp [OfOrder, horder]
  rw [Stores, Removes, hlast, hres, hof, hof]
  show q ∈ (Bitstamp.OrderBook.processMsg msg none b.1).toOrderBook.side s ↔ _
  rw [Bitstamp.processMsg_of_order hk, horder]
  show q ∈ (b.1.applyOrder entry).toOrderBook.side s ↔ _
  rw [Bitstamp.OrderBook.mem_applyOrder_iff horders hprice hamount hge]
  simp only [reduceCtorEq, false_and, exists_false, false_or, Bool.false_eq_true, and_false]
  rfl

/-- The levels after a well-formed message, from the message and the book before it. -/
theorem mem_step_iff (horders : x.OrdersPositive b) (hmsg : x.WellFormedLob msg) :
    q ∈ x.model.side (x.model.processMsg msg none b) s ↔
      x.Stores b msg s q ∨ q ∈ x.model.side b s ∧ ¬ x.Removes b msg s q := by
  by_cases hk : x.model.kind msg = .order
  · cases x with
    | okx => exact absurd hk Lob.kindOf_ne_order
    | kraken => exact absurd hk Lob.kindOf_ne_order
    | bitstamp depth =>
      replace hmsg : Bitstamp.WellFormedLob msg := hmsg
      cases hmsg with
      | book ob hkind =>
        rcases hkind with h | h
        · exact absurd (hk.symm.trans h) (by simp)
        · exact absurd (hk.symm.trans h) (by simp)
      | order entry price amount horder hprice _ hamount hge =>
        exact mem_step_order horders horder hprice hamount hge
  · exact mem_step_of_not_order hk

/-! ## The best level after a message -/

/-- The message leaves the level `p` and no better one. -/
structure LeavesBest (x : Exchange) (b : x.model.Book) (msg : x.model.Msg) (s : Side) (p : F64) :
    Prop where
  held : x.Stores b msg s p ∨ p ∈ x.model.side b s ∧ ¬ x.Removes b msg s p
  nothingBetter : ∀ q, s.cmp q p = .lt →
    ¬ x.Stores b msg s q ∧ (q ∈ x.model.side b s → x.Removes b msg s q)

theorem best_step_iff (horders : x.OrdersPositive b) (hmsg : x.WellFormedLob msg) {p : F64} :
    (x.model.side (x.model.processMsg msg none b) s).best = some p ↔ x.LeavesBest b msg s p := by
  rw [Levels.best_eq_some_iff, mem_step_iff horders hmsg]
  constructor
  · rintro ⟨hheld, hall⟩
    refine ⟨hheld, fun q hlt => ?_⟩
    have hgone : q ∉ x.model.side (x.model.processMsg msg none b) s := by
      intro hq
      have hle := hall q hq
      rw [Std.OrientedCmp.gt_of_lt hlt] at hle
      cases hle
    rw [mem_step_iff horders hmsg, not_or, not_and, not_not] at hgone
    exact hgone
  · rintro ⟨hheld, hbetter⟩
    refine ⟨hheld, fun q hq => Side.isLE_cmp_of_not_lt fun hlt => ?_⟩
    obtain ⟨hno, hremoved⟩ := hbetter q hlt
    rcases (mem_step_iff horders hmsg).mp hq with h | ⟨hbefore, hstays⟩
    · exact hno h
    · exact hstays (hremoved hbefore)

/-- The book after a run without a filter. -/
def bookAfter (x : Exchange) (msgs : List x.model.Msg) : x.model.Book :=
  msgs.foldl (fun b msg => x.model.processMsg msg none b) x.model.new

theorem ordersPositive_processMsg (horders : x.OrdersPositive b) (hmsg : x.WellFormedLob msg) :
    x.OrdersPositive (x.model.processMsg msg none b) := by
  by_cases hk : x.model.kind msg = .order
  · cases x with
    | okx => exact absurd hk Lob.kindOf_ne_order
    | kraken => exact absurd hk Lob.kindOf_ne_order
    | bitstamp depth =>
      replace hmsg : Bitstamp.WellFormedLob msg := hmsg
      cases hmsg with
      | book ob hkind =>
        rcases hkind with h | h
        · exact absurd (hk.symm.trans h) (by simp)
        · exact absurd (hk.symm.trans h) (by simp)
      | order entry price amount horder hprice _ hamount hge =>
        show (Bitstamp.OrderBook.processMsg msg none b.1).OrdersPositive
        rw [Bitstamp.processMsg_of_order hk, horder]
        refine (Bitstamp.OrderBook.ordersPositive_applyOrder_iff horders entry).mpr ?_
        intro _ _ _ amount' hamount'
        rw [← Option.some.inj (hamount.symm.trans hamount')]
        exact hge
  · exact ordersPositive_step hk horders

theorem ordersPositive_bookAfter {msgs : List x.model.Msg}
    (hmsgs : ∀ m ∈ msgs, x.WellFormedLob m) : x.OrdersPositive (x.bookAfter msgs) := by
  induction msgs using List.reverseRecOn with
  | nil => exact positive_new.orders
  | append_singleton msgs msg ih =>
    rw [bookAfter, List.foldl_concat]
    refine ordersPositive_processMsg (ih fun m hm => hmsgs m (List.mem_append_left _ hm)) ?_
    exact hmsgs msg (List.mem_append_right _ (List.mem_singleton_self msg))

/-! ## The distances of the rows -/

/-- `persist_message` of the client. -/
def persistMessage (rfc3339 : String → Option ℤ) (cfg : Config) (stamp : Stamp) :
    (x : Exchange) → x.model.Msg → World → World
  | okx, msg => Okx.persistMessage cfg stamp msg
  | kraken, msg => Kraken.persistMessage rfc3339 cfg stamp msg
  | bitstamp _, msg => Bitstamp.persistMessage cfg stamp msg

/-- Side, price and size of the rows of a message. -/
def rowLevels : (x : Exchange) → x.model.Msg → List (Side × F64 × F64)
  | okx, msg => Okx.rowLevels msg
  | kraken, msg => Kraken.rowLevels msg
  | bitstamp _, msg => Bitstamp.rowLevels msg

/-- The first price that the message lists for the side of a row. Where it lists none, the distance
is 0, as from the row's own price. -/
def measuredFrom (x : Exchange) (msg : x.model.Msg) (l : Side × F64 × F64) : F64 :=
  ((x.model.entries msg l.1).head?.map Prod.fst).getD l.2.1

/-- On this side the message leaves the price that its rows are measured from, and no better one,
and no row of positive size has a better price. -/
def MeasuresFromBest (x : Exchange) (b : x.model.Book) (msg : x.model.Msg) (s : Side) : Prop :=
  ∀ l ∈ x.rowLevels msg, l.1 = s → x.LeavesBest b msg s (x.measuredFrom msg l) ∧
    (l.2.2.gt F64.zero = true → (s.cmp (x.measuredFrom msg l) l.2.1).isLE)

theorem exists_fin_measuredFrom {takenForBest : Side → Option F64}
    {rowLevels : List (Side × F64 × F64)} (h : Quoted (x.model.entries msg) takenForBest rowLevels)
    {l : Side × F64 × F64} (hl : l ∈ rowLevels) : ∃ a, x.measuredFrom msg l = .fin a := by
  rw [measuredFrom]
  cases hhead : (x.model.entries msg l.1).head? with
  | none => exact h.finite l hl
  | some e => exact (h.positive l.1 e (List.mem_of_head? hhead)).exists_fin

theorem offset_eq {takenForBest : Side → Option F64} {rowLevels : List (Side × F64 × F64)}
    (h : Quoted (x.model.entries msg) takenForBest rowLevels) {l : Side × F64 × F64}
    (hl : l ∈ rowLevels) : offset takenForBest l = l.1.distance (x.measuredFrom msg l) l.2.1 := by
  rw [offset, measuredFrom, h.first]
  cases (x.model.entries msg l.1).head? with
  | none =>
    obtain ⟨a, ha⟩ := h.finite l hl
    rw [Option.map_none, Option.map_none, Option.getD_none, Option.getD_none, ha,
      Side.distance_self]
  | some e => rfl

/-- What a well-formed message is measured from, whatever the client. -/
theorem exists_quoted (hmsg : x.WellFormedLob msg) (rfc3339 : String → Option ℤ) (cfg : Config)
    {stamp : Stamp} (hflush : stamp.flushOk = true) (w : World) :
    ∃ takenForBest, Quoted (x.model.entries msg) takenForBest (x.rowLevels msg) ∧
      measuredRows w (x.persistMessage rfc3339 cfg stamp msg w)
        = (x.rowLevels msg).map fun l => (l, offset takenForBest l) := by
  cases x with
  | okx =>
    obtain ⟨hlob, lists, hlists, hboth⟩ := hmsg
    exact ⟨_, Okx.quoted hlob hlists hboth, Okx.measuredRows_persistMessage hflush hlob w⟩
  | kraken =>
    obtain ⟨hlob, lists, hlists, hboth⟩ := hmsg
    exact ⟨_, Kraken.quoted hlob hlists hboth,
      Kraken.measuredRows_persistMessage rfc3339 hflush hlob w⟩
  | bitstamp depth =>
    replace hmsg : Bitstamp.WellFormedLob msg := hmsg
    exact ⟨_, hmsg.quoted, Bitstamp.measuredRows_persistMessage hflush hmsg.messageType w⟩

theorem measuredRows_eq (hmsg : x.WellFormedLob msg) (rfc3339 : String → Option ℤ) (cfg : Config)
    {stamp : Stamp} (hflush : stamp.flushOk = true) (w : World) :
    measuredRows w (x.persistMessage rfc3339 cfg stamp msg w)
      = (x.rowLevels msg).map fun l => (l, l.1.distance (x.measuredFrom msg l) l.2.1) := by
  obtain ⟨takenForBest, hquoted, hrows⟩ := exists_quoted hmsg rfc3339 cfg hflush w
  rw [hrows]
  refine List.map_congr_left fun l hl => ?_
  rw [offset_eq hquoted hl]

/-- One row: the distance it is given is the one from the best level, and not negative for a
positive size, if and only if it is measured from the best level and not better than that. -/
theorem row_fromBest_iff {m : Levels s} (hleft : m ≠ ∅) {a c : ℚ} {size : F64} :
    (∀ best ∈ m.best, s.distance (.fin a) (.fin c) = s.distance best (.fin c) ∧
        (size.gt F64.zero = true → (s.distance (.fin a) (.fin c)).ge F64.zero = true)) ↔
      m.best = some (.fin a) ∧
        (size.gt F64.zero = true → (s.cmp (.fin a) (.fin c)).isLE) := by
  obtain ⟨best, hbest⟩ := Option.ne_none_iff_exists'.mp (mt Levels.best_eq_none.mp hleft)
  rw [hbest, Option.some_inj, eq_comm (a := best)]
  simp only [Option.mem_some_iff, forall_eq', Side.distance_eq_iff, Side.distance_ge_zero_iff]

/-- **When `best_diff` is the distance from the best price.** For every client, after every run of
well-formed messages, and for every side that is left a level: the rows that a last well-formed
message adds for the side have it if and only if the price they are measured from is the best level
that the message leaves and no row of positive size has a better price. -/
theorem bestDiff_iff (x : Exchange) (rfc3339 : String → Option ℤ) (cfg : Config) (stamp : Stamp)
    (hflush : stamp.flushOk = true) (w : World) {msgs : List x.model.Msg} {msg : x.model.Msg}
    (hmsgs : ∀ m ∈ msgs, x.WellFormedLob m) (hmsg : x.WellFormedLob msg) {s : Side}
    (hleft : x.levelsAfter (msgs ++ [msg]) s ≠ ∅) :
    (∀ row ∈ (x.persistMessage rfc3339 cfg stamp msg w).lobLevels.drop w.lobLevels.length,
        row.side = s → row.FromBest (x.levelsAfter (msgs ++ [msg]) s)) ↔
      x.MeasuresFromBest (x.bookAfter msgs) msg s := by
  have hafter : x.levelsAfter (msgs ++ [msg]) s
      = x.model.side (x.model.processMsg msg none (x.bookAfter msgs)) s := by
    rw [levelsAfter, List.foldl_concat]
    rfl
  have hrows : (∀ row ∈ (x.persistMessage rfc3339 cfg stamp msg w).lobLevels.drop
        w.lobLevels.length, row.side = s → row.FromBest (x.levelsAfter (msgs ++ [msg]) s)) ↔
      ∀ r ∈ measuredRows w (x.persistMessage rfc3339 cfg stamp msg w), r.1.1 = s →
        ∀ best ∈ (x.levelsAfter (msgs ++ [msg]) s).best, r.2 = s.distance best r.1.2.1 ∧
          (r.1.2.2.gt F64.zero = true → r.2.ge F64.zero = true) := by
    rw [measuredRows, List.forall_mem_map]
    rfl
  obtain ⟨takenForBest, hquoted, -⟩ := exists_quoted hmsg rfc3339 cfg hflush w
  rw [hrows, measuredRows_eq hmsg rfc3339 cfg hflush w, List.forall_mem_map]
  refine forall₂_congr fun l hl => forall_congr' fun hside => ?_
  obtain ⟨a, ha⟩ := exists_fin_measuredFrom hquoted hl
  obtain ⟨c, hc⟩ := hquoted.finite l hl
  rw [hside, ha, hc, row_fromBest_iff hleft, hafter,
    best_step_iff (ordersPositive_bookAfter hmsgs) hmsg]

/-- A message of OKX with one bid. -/
def bidMsg (action price : String) : okx.model.Msg := Okx.booksMsg action [(price, "1")] []

theorem wellFormedLob_bidMsg {action price : String}
    (haction : action = "snapshot" ∨ action = "update") {q : ℚ}
    (hprice : parseF64 price = some (.fin q)) (hpos : 0 < q) :
    okx.WellFormedLob (bidMsg action price) := by
  refine ⟨?_, _, rfl, fun s => ?_⟩
  · rcases haction with rfl | rfl
    · exact Or.inl rfl
    · exact Or.inr rfl
  · have hsize : parseF64 "1" = some (.fin 1) := by decide +kernel
    cases s with
    | bid =>
      refine ⟨rfl, fun v hv => ⟨(.fin q, .fin 1), ?_, hpos⟩⟩
      obtain rfl := List.mem_singleton.mp hv
      exact Okx.deliver_texts hprice hsize
    | ask => exact ⟨rfl, fun v hv => absurd hv List.not_mem_nil⟩

theorem bestDiff_iff_snapshot :
    okx.MeasuresFromBest (okx.bookAfter []) (bidMsg "snapshot" "100") .bid := by
  refine (bestDiff_iff okx (fun _ => none) okxConfig { now := 0 } rfl {}
    (fun _ hm => absurd hm List.not_mem_nil)
    (wellFormedLob_bidMsg (q := 100) (Or.inl rfl) (by decide +kernel) (by norm_num)) ?_).mp ?_
  · rw [Ne, ← Levels.best_eq_none]
    decide +kernel
  · show ∀ row ∈ _, _ → ∀ best ∈ _, _ ∧ _
    decide +kernel

/-- A bid at 99 is added below one at 100: its `best_diff` is 0. -/
theorem best_of_message_taken :
    ¬ ∀ (x : Exchange) (rfc3339 : String → Option ℤ) (cfg : Config) (stamp : Stamp),
      stamp.flushOk = true → ∀ (w : World) (msgs : List x.model.Msg) (msg : x.model.Msg),
      (∀ m ∈ msgs, x.WellFormedLob m) → x.WellFormedLob msg → ∀ s,
      x.levelsAfter (msgs ++ [msg]) s ≠ ∅ →
      ∀ row ∈ (x.persistMessage rfc3339 cfg stamp msg w).lobLevels.drop w.lobLevels.length,
        row.side = s → row.FromBest (x.levelsAfter (msgs ++ [msg]) s) := by
  intro h
  have hbid : ∀ row ∈ (okx.persistMessage (fun _ => none) okxConfig { now := 0 }
      (bidMsg "update" "99") {}).lobLevels.drop 0, row.side = .bid →
      row.FromBest (okx.levelsAfter [bidMsg "snapshot" "100", bidMsg "update" "99"] .bid) := by
    refine h okx (fun _ => none) okxConfig { now := 0 } rfl {} [bidMsg "snapshot" "100"] _
      ?_ ?_ _ ?_
    · intro m hm
      rw [List.mem_singleton.mp hm]
      exact wellFormedLob_bidMsg (q := 100) (Or.inl rfl) (by decide +kernel) (by norm_num)
    · exact wellFormedLob_bidMsg (q := 99) (Or.inr rfl) (by decide +kernel) (by norm_num)
    · rw [Ne, ← Levels.best_eq_none]
      decide +kernel
  have hfalse : ¬ ∀ row ∈ (okx.persistMessage (fun _ => none) okxConfig { now := 0 }
      (bidMsg "update" "99") {}).lobLevels.drop 0, row.side = .bid →
      ∀ best ∈ (okx.levelsAfter [bidMsg "snapshot" "100", bidMsg "update" "99"] .bid).best,
        row.bestDiff = Side.bid.distance best row.price ∧
          (row.size.gt F64.zero = true → row.bestDiff.ge F64.zero = true) := by
    decide +kernel
  exact hfalse hbid

end Exchange

end Cryptomeria
