import Cryptomeria.Exchange

/-!
# The book as a function of the history

What a side holds after a run without a filter, said in terms of the messages alone: take the
entries from the last message that resets the side onward, and let the last entry for a price
decide (`last_writer_wins`). The three books differ in what resets a side.

The single orders of Bitstamp's `live_orders` channel are no such entries. The size of their price
level is the sum of the tracked orders, so the law leaves out the prices that they name.
-/

set_option autoImplicit false

namespace Cryptomeria

open WriteLog

/-! ## The last entry for a price -/

/-- The size in the last entry for a price. -/
def lastSize (es : List (F64 × F64)) (q : F64) : Option F64 :=
  (es.filter fun e => e.1 = q).getLast?.map Prod.snd

theorem lastSize_concat (es : List (F64 × F64)) (e : F64 × F64) (q : F64) :
    lastSize (es ++ [e]) q = if e.1 = q then some e.2 else lastSize es q := by
  rw [lastSize, List.filter_append]
  by_cases h : e.1 = q <;> simp [h, lastSize]

theorem last_writes (es : List (F64 × F64)) (q : F64) :
    last (writes es) q
      = (lastSize es q).map fun a => if a.eq F64.zero then none else some a := by
  induction es using List.reverseRecOn with
  | nil => rfl
  | append_singleton es e ih =>
    rw [writes, List.map_append, last_append, lastSize_concat]
    by_cases h : e.1 = q
    · simp [last, writeOf, h]
    · rw [writes] at ih
      simpa [last, writeOf, h] using ih

theorem getElem?_replay_writes {s : Side} {es : List (F64 × F64)} {q a : F64} :
    (replay (∅ : Levels s) (writes es))[q]? = some a ↔ lastSize es q = some a ∧ a ≠ F64.zero := by
  rw [getElem?_replay, last_writes]
  cases lastSize es q with
  | none => simp
  | some a' =>
    by_cases hz : a'.eq F64.zero = true
    · have ha' : a' = F64.zero := F64.eq_zero.mp hz
      subst ha'
      simp only [Option.map_some, hz, if_true, Option.getD_some, Option.some_inj, reduceCtorEq,
        false_iff, not_and, not_not]
      exact fun h => h.symm
    · have ha' : a' ≠ F64.zero := fun h => hz (F64.eq_zero.mpr h)
      simp only [Option.map_some, hz, Option.getD_some, Option.some_inj]
      constructor
      · rintro ⟨⟩
        exact ⟨rfl, ha'⟩
      · rintro ⟨rfl, -⟩
        rfl

/-! ## The entries that count -/

namespace Exchange

/-- The message resets the side: a snapshot with a non-empty list for it, or, for Bitstamp, any
snapshot. -/
def resets : (x : Exchange) → x.model.Msg → Side → Bool
  | okx, msg, s => Okx.model.kind msg = .snapshot && !Okx.model.blank msg s
  | kraken, msg, s => Kraken.model.kind msg = .snapshot && !Kraken.model.blank msg s
  | bitstamp _, msg, _ => Bitstamp.kindOf msg = .snapshot

/-- What a snapshot lists for a side. Bitstamp reads the first levels only. -/
def listed : (x : Exchange) → x.model.Msg → Side → List (F64 × F64)
  | okx, msg, s => Okx.model.entries msg s
  | kraken, msg, s => Kraken.model.entries msg s
  | bitstamp depth, msg, s =>
    ((Bitstamp.payload msg).map fun ob => ((ob.side s).take depth).filterMap
      Bitstamp.parseLevel).getD []

/-- The side and price that a single order names. -/
def ordered : (x : Exchange) → x.model.Msg → Option (Side × F64)
  | okx, _ => none
  | kraken, _ => none
  | bitstamp _, msg => (Bitstamp.orderOf msg).bind Bitstamp.OrderBook.place

variable (x : Exchange)

/-- The entries of a message that count: all of an update, the positive ones of a snapshot. -/
def counted (msg : x.model.Msg) (s : Side) : List (F64 × F64) :=
  match x.model.kind msg with
  | .snapshot => (x.listed msg s).filter fun e => e.2.gt F64.zero
  | .update => x.model.entries msg s
  | .order | .idle => []

/-- The messages from the last one that resets the side onward. -/
def recent (msgs : List x.model.Msg) (s : Side) : List x.model.Msg :=
  Trace.sinceLast (fun msg => x.resets msg s) msgs

/-- The entries for a side from the last message that resets it onward. -/
def history (msgs : List x.model.Msg) (s : Side) : List (F64 × F64) :=
  (x.recent msgs s).flatMap fun msg => x.counted msg s

/-- No single order since the last reset names the price on this side. -/
def Untouched (msgs : List x.model.Msg) (s : Side) (q : F64) : Prop :=
  ∀ msg ∈ x.recent msgs s, x.ordered msg ≠ some (s, q)

instance (msgs : List x.model.Msg) (s : Side) (q : F64) : Decidable (x.Untouched msgs s q) :=
  inferInstanceAs (Decidable (∀ msg ∈ x.recent msgs s, x.ordered msg ≠ some (s, q)))

/-- The levels of the side after a run without a filter. -/
def levelsAfter (msgs : List x.model.Msg) (s : Side) : Levels s :=
  x.model.side (msgs.foldl (fun b msg => x.model.processMsg msg none b) x.model.new) s

variable {x} {msg : x.model.Msg} {msgs : List x.model.Msg} {s : Side} {q : F64}

/-! ## One message -/

theorem counted_snapshot (hk : x.model.kind msg = .snapshot) :
    x.counted msg s = (x.listed msg s).filter fun e => e.2.gt F64.zero := by
  rw [counted, hk]

theorem counted_update (hk : x.model.kind msg = .update) :
    x.counted msg s = x.model.entries msg s := by
  rw [counted, hk]

theorem counted_order (hk : x.model.kind msg = .order) : x.counted msg s = [] := by
  rw [counted, hk]

theorem counted_idle (hk : x.model.kind msg = .idle) : x.counted msg s = [] := by
  rw [counted, hk]

theorem snapshot_none (hk : x.model.kind msg = .snapshot) (s : Side) :
    x.model.snapshot msg none s = if x.resets msg s then some (x.listed msg s) else none := by
  cases x with
  | okx =>
    have hlist : Okx.model.snapshot msg none s
        = if Okx.model.blank msg s then none else some (Okx.model.entries msg s) :=
      (Lob.snapshotLevels_none s _ : Lob.snapshotLevels Okx.parseLevel _ none s _ = _)
    replace hk : Okx.model.kind msg = .snapshot := hk
    refine hlist.trans ?_
    cases hb : Okx.model.blank msg s <;> simp [resets, hk, hb, listed]
  | kraken =>
    have hlist : Kraken.model.snapshot msg none s
        = if Kraken.model.blank msg s then none else some (Kraken.model.entries msg s) :=
      (Lob.snapshotLevels_none s _ : Lob.snapshotLevels some _ none s _ = _)
    replace hk : Kraken.model.kind msg = .snapshot := hk
    refine hlist.trans ?_
    cases hb : Kraken.model.blank msg s <;> simp [resets, hk, hb, listed]
  | bitstamp depth =>
    replace hk : Bitstamp.kindOf msg = .snapshot := hk
    obtain ⟨ob, hp⟩ := Bitstamp.payload_of_snapshot hk
    refine (?_ : Bitstamp.snapshotOf depth msg none s = _)
    simp [Bitstamp.snapshotOf, resets, listed, hk, hp]

theorem resets_eq_false (hk : x.model.kind msg ≠ .snapshot) (s : Side) :
    x.resets msg s = false := by
  cases x with
  | okx => exact Bool.and_eq_false_imp.mpr fun h => absurd (of_decide_eq_true h) hk
  | kraken => exact Bool.and_eq_false_imp.mpr fun h => absurd (of_decide_eq_true h) hk
  | bitstamp depth => exact decide_eq_false hk

/-- A snapshot that does not reset a side lists nothing for it. -/
theorem listed_eq_nil (hk : x.model.kind msg = .snapshot) (h : x.resets msg s = false) :
    x.listed msg s = [] := by
  cases x with
  | okx =>
    replace hk : Okx.model.kind msg = .snapshot := hk
    have hblank : Okx.model.blank msg s = true := by simpa [resets, hk] using h
    exact congrArg (List.filterMap Okx.parseLevel) (List.isEmpty_iff.mp hblank)
  | kraken =>
    replace hk : Kraken.model.kind msg = .snapshot := hk
    have hblank : Kraken.model.blank msg s = true := by simpa [resets, hk] using h
    exact congrArg (List.filterMap Kraken.parseLevel) (List.isEmpty_iff.mp hblank)
  | bitstamp depth => exact absurd hk (of_decide_eq_false h)

/-- A message of the book replays its entries, on an empty side where it resets the side. -/
theorem side_step (hk : x.model.kind msg ≠ .order) (b : x.model.Book) (s : Side) :
    x.model.side (x.model.processMsg msg none b) s
      = replay (if x.resets msg s then ∅ else x.model.side b s) (writes (x.counted msg s)) := by
  cases hkind : x.model.kind msg with
  | snapshot =>
    rw [x.model.side_snapshot _ _ _ _ hkind, snapshot_none hkind, counted_snapshot hkind]
    cases hres : x.resets msg s with
    | true => simp [replaceSide, stores_eq_writes]
    | false =>
      rw [listed_eq_nil hkind hres]
      rfl
  | update =>
    rw [x.model.side_update _ _ _ _ hkind, counted_update hkind,
      resets_eq_false (by rw [hkind]; simp) s]
    rfl
  | order => exact absurd hkind hk
  | idle =>
    rw [x.model.side_idle _ _ _ _ hkind, counted_idle hkind,
      resets_eq_false (by rw [hkind]; simp) s]
    rfl

/-! ## Single orders -/

/-- Every tracked order stands at a price that a single order since the last snapshot names. -/
def Tracked : (x : Exchange) → List x.model.Msg → x.model.Book → Prop
  | okx, _, _ => True
  | kraken, _, _ => True
  | bitstamp depth, msgs, b => ∀ (id : ℕ) (info : Bitstamp.OrderInfo),
    b.1.orders[id]? = some info → ∃ msg ∈ (bitstamp depth).recent msgs info.side,
      (bitstamp depth).ordered msg = some (info.side, info.price)

theorem recent_concat (msgs : List x.model.Msg) (msg : x.model.Msg) (s : Side) :
    x.recent (msgs ++ [msg]) s = if x.resets msg s then [msg] else x.recent msgs s ++ [msg] :=
  Trace.sinceLast_concat _ _ _

theorem Untouched.of_concat (hres : x.resets msg s = false)
    (h : x.Untouched (msgs ++ [msg]) s q) :
    x.Untouched msgs s q ∧ x.ordered msg ≠ some (s, q) := by
  rw [Untouched, recent_concat, hres] at h
  constructor
  · intro msg' hmem
    exact h msg' (List.mem_append_left _ hmem)
  · exact h msg (List.mem_append_right _ (List.mem_singleton_self msg))

theorem history_concat (msgs : List x.model.Msg) (msg : x.model.Msg) (s : Side) :
    x.history (msgs ++ [msg]) s
      = (if x.resets msg s then [] else x.history msgs s) ++ x.counted msg s := by
  rw [history, recent_concat]
  cases x.resets msg s <;> simp [history]

/-- A single order leaves the levels alone that no order has named. -/
theorem getElem?_step_order (hk : x.model.kind msg = .order) {b : x.model.Book}
    (htracked : x.Tracked msgs b) (hq : x.Untouched msgs s q)
    (hnamed : x.ordered msg ≠ some (s, q)) :
    (x.model.side (x.model.processMsg msg none b) s)[q]? = (x.model.side b s)[q]? := by
  cases x with
  | okx => exact absurd hk Lob.kindOf_ne_order
  | kraken => exact absurd hk Lob.kindOf_ne_order
  | bitstamp depth =>
    show ((Bitstamp.OrderBook.processMsg msg none b.1).toOrderBook.side s)[q]?
      = (b.1.toOrderBook.side s)[q]?
    rw [Bitstamp.processMsg_of_order hk]
    cases hentry : Bitstamp.orderOf msg with
    | none => rfl
    | some entry =>
      apply Bitstamp.OrderBook.getElem?_applyOrder
      · intro hplace
        apply hnamed
        rw [ordered, hentry]
        exact hplace
      · intro info hinfo heq
        obtain ⟨rfl, rfl⟩ := Prod.mk.inj heq
        obtain ⟨msg', hmem, hmsg'⟩ := htracked entry.id info hinfo
        exact hq msg' hmem hmsg'

theorem tracked_step {b : x.model.Book} (h : x.Tracked msgs b) (msg : x.model.Msg) :
    x.Tracked (msgs ++ [msg]) (x.model.processMsg msg none b) := by
  cases x with
  | okx => trivial
  | kraken => trivial
  | bitstamp depth =>
    intro id info hinfo
    have hbefore : (bitstamp depth).model.kind msg ≠ .snapshot → b.1.orders[id]? = some info →
        ∃ msg' ∈ (bitstamp depth).recent (msgs ++ [msg]) info.side,
          (bitstamp depth).ordered msg' = some (info.side, info.price) := by
      intro hsnap hold
      obtain ⟨msg', hmem, hmsg'⟩ := h id info hold
      refine ⟨msg', ?_, hmsg'⟩
      rw [recent_concat, resets_eq_false hsnap]
      exact List.mem_append_left _ hmem
    replace hinfo : (Bitstamp.OrderBook.processMsg msg none b.1).orders[id]? = some info := hinfo
    by_cases hk : Bitstamp.kindOf msg = .order
    · have hsnap : (bitstamp depth).model.kind msg ≠ .snapshot := by
        intro hs
        exact absurd (hk.symm.trans hs) (by simp)
      rw [Bitstamp.processMsg_of_order hk] at hinfo
      cases hentry : Bitstamp.orderOf msg with
      | none =>
        rw [hentry] at hinfo
        exact hbefore hsnap hinfo
      | some entry =>
        rw [hentry] at hinfo
        rcases Bitstamp.OrderBook.orders_applyOrder _ hinfo with hold | hplace
        · exact hbefore hsnap hold
        · refine ⟨msg, ?_, ?_⟩
          · rw [recent_concat, resets_eq_false hsnap]
            exact List.mem_append_right _ (List.mem_singleton_self msg)
          · rw [ordered, hentry]
            exact hplace
    · rw [Bitstamp.orders_processMsg hk] at hinfo
      split at hinfo
      · simp at hinfo
      · rename_i hsnap
        exact hbefore hsnap hinfo

/-! ## Runs -/

/-- What carries the run: the law for every price that no order names, and where the tracked
orders are. -/
structure Follows (msgs : List x.model.Msg) (b : x.model.Book) : Prop where
  levels : ∀ s q, x.Untouched msgs s q →
    (x.model.side b s)[q]? = (replay (∅ : Levels s) (writes (x.history msgs s)))[q]?
  tracked : x.Tracked msgs b

theorem Follows.step {b : x.model.Book} (h : Follows msgs b) (msg : x.model.Msg) :
    Follows (msgs ++ [msg]) (x.model.processMsg msg none b) := by
  refine ⟨?_, tracked_step h.tracked msg⟩
  intro s q hq
  rw [history_concat]
  by_cases hk : x.model.kind msg = .order
  · have hres : x.resets msg s = false := resets_eq_false (by rw [hk]; simp) s
    obtain ⟨hbefore, hnamed⟩ := hq.of_concat hres
    rw [getElem?_step_order hk h.tracked hbefore hnamed, h.levels s q hbefore, hres,
      counted_order hk]
    simp
  · rw [side_step hk b s]
    cases hres : x.resets msg s with
    | true => simp
    | false =>
      have hlevel := h.levels s q (hq.of_concat hres).1
      have happend : writes (x.history msgs s ++ x.counted msg s)
          = writes (x.history msgs s) ++ writes (x.counted msg s) := List.map_append
      simp only [Bool.false_eq_true, if_false]
      rw [happend, replay_append, getElem?_replay, getElem?_replay, hlevel]

theorem follows_new : Follows [] x.model.new := by
  constructor
  · intro s q _
    rw [x.model.side_new s]
    rfl
  · cases x with
    | okx => trivial
    | kraken => trivial
    | bitstamp depth =>
      intro id info hinfo
      have hnone : (Bitstamp.OrderBook.withSnapshotDepth depth).orders[id]? = none := by
        simp [Bitstamp.OrderBook.withSnapshotDepth]
      exact absurd (hnone.symm.trans hinfo) (by simp)

theorem follows_run (msgs : List x.model.Msg) :
    Follows msgs (msgs.foldl (fun b msg => x.model.processMsg msg none b) x.model.new) := by
  induction msgs using List.reverseRecOn with
  | nil => exact follows_new
  | append_singleton msgs msg ih =>
    rw [List.foldl_concat]
    exact ih.step msg

/-- **Last writer wins.** After any run of a book without a filter, at every price that no single
order since the last reset names, the side holds the size of the last entry for the price from the
last reset onward, unless that size is zero. The best bid is the greatest and the best ask the
least price held, and the levels come in descending and ascending order of price. -/
theorem last_writer_wins (x : Exchange) (msgs : List x.model.Msg) :
    (∀ s q a, x.Untouched msgs s q → ((x.levelsAfter msgs s)[q]? = some a ↔
      lastSize (x.history msgs s) q = some a ∧ a ≠ F64.zero)) ∧
    (∀ best, (x.levelsAfter msgs .bid).best = some best ↔
      best ∈ x.levelsAfter msgs .bid ∧ ∀ q ∈ x.levelsAfter msgs .bid, q ≤ best) ∧
    (∀ best, (x.levelsAfter msgs .ask).best = some best ↔
      best ∈ x.levelsAfter msgs .ask ∧ ∀ q ∈ x.levelsAfter msgs .ask, best ≤ q) ∧
    (x.levelsAfter msgs .bid).toList.Pairwise (fun e e' => e'.1 < e.1) ∧
    (x.levelsAfter msgs .ask).toList.Pairwise (fun e e' => e.1 < e'.1) := by
  refine ⟨?_, ?_, ?_, ?_, ?_⟩
  · intro s q a hq
    rw [levelsAfter, (follows_run msgs).levels s q hq]
    exact getElem?_replay_writes
  · intro best
    rw [Levels.best_eq_some_iff]
    simp only [Side.isLE_cmp]
  · intro best
    rw [Levels.best_eq_some_iff]
    simp only [Side.isLE_cmp]
  · have hbids := Levels.pairwise_toList (x.levelsAfter msgs .bid)
    simpa only [Side.cmp_eq_lt] using hbids
  · have hasks := Levels.pairwise_toList (x.levelsAfter msgs .ask)
    simpa only [Side.cmp_eq_lt] using hasks

end Exchange

/-- A new bid of the `live_orders` channel. -/
def Bitstamp.orderMsg (id : ℕ) (price amount : String) : BitstampWsMessage :=
  { event := some "order_created"
    channel := some "live_orders_btcusd"
    data := some (.object [("id", .number (.int id)), ("price", .string price),
      ("amount", .string amount), ("type", .number (.int 0))]) }

/-- A bid at 100 is removed and comes back, with a single order at 99 in between. -/
def readded : List (Exchange.bitstamp 400).model.Msg :=
  [Bitstamp.bookMsg "snapshot" [("100", "1")] [("101", "2")],
    Bitstamp.bookMsg "data" [("100", "0")] [], Bitstamp.orderMsg 7 "99" "1",
    Bitstamp.bookMsg "data" [("100", "2"), ("100", "3")] []]

theorem Exchange.last_writer_wins_readded :
    ((Exchange.bitstamp 400).levelsAfter readded .bid)[F64.fin 100]? = some (.fin 3) :=
  ((Exchange.last_writer_wins (.bitstamp 400) readded).1 .bid (.fin 100) (.fin 3)
    (by decide +kernel)).mpr ⟨by decide +kernel, by decide⟩

/-- The entry of a single order, if it is one for this side. -/
def Bitstamp.orderEntry (msg : BitstampWsMessage) (s : Side) : List (F64 × F64) :=
  ((orderOf msg).bind fun entry => do
    let (side, price) ← OrderBook.place entry
    let amount ← parseF64 entry.amount
    if side = s then some (price, amount) else none).toList

/-- The entries of a message, those of single orders among them. -/
def Exchange.quoted : (x : Exchange) → x.model.Msg → Side → List (F64 × F64)
  | .okx, msg, s => Exchange.okx.counted msg s
  | .kraken, msg, s => Exchange.kraken.counted msg s
  | .bitstamp depth, msg, s =>
    (Exchange.bitstamp depth).counted msg s ++ Bitstamp.orderEntry msg s

/-- Two bids of sizes 1 and 2 at one price: the level has size 3, and the last entry says 2. -/
theorem Exchange.single_orders_add_up :
    ¬ ∀ (x : Exchange) (msgs : List x.model.Msg) (s : Side) (q a : F64),
      (x.levelsAfter msgs s)[q]? = some a ↔
        lastSize ((x.recent msgs s).flatMap fun msg => x.quoted msg s) q = some a ∧
          a ≠ F64.zero := by
  intro h
  have hlevel := h (.bitstamp 400) [Bitstamp.orderMsg 1 "100" "1", Bitstamp.orderMsg 2 "100" "2"]
    .bid (.fin 100) (.fin 3)
  exact absurd hlevel (by decide +kernel)

end Cryptomeria
