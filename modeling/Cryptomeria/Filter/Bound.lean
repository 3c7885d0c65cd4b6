import Cryptomeria.Exchange

/-!
# The size of a `MaxLevel` book

The books of OKX and Kraken test every entry of an update against the number of levels held
before the update. A full side takes nothing new, so it stays within the limit. A side with room
for one more level has room for any number of them: all entries of the update pass. What the
update leaves is then counted from the prices it brings in and takes out.

The Bitstamp book counts within the update (`grow`). Its count is no count of levels: it also
rises with a removal of an unknown price and with a price that comes twice, and it never falls.
That makes it an upper bound, so the limit holds in every run.
-/

set_option autoImplicit false

namespace Cryptomeria

open WriteLog

/-- An update that meets a side below the limit does not bring in more prices than fit. -/
def HasRoom {s : Side} (n : ℕ) (m : Levels s) (es : List (F64 × F64)) : Prop :=
  m.size < n → m.size + (added m (writes es)).card ≤ n + (removed m (writes es)).card

/-- A full side admits no new price. -/
theorem added_admitted_of_full {s : Side} {n : ℕ} {m : Levels s} (hfull : n ≤ m.size)
    (es : List (F64 × F64)) : added m (writes (admitted false (.maxLevel n) m 0 es)) = ∅ := by
  refine Finset.eq_empty_of_forall_notMem fun k hk => ?_
  obtain ⟨hnew, v, hv⟩ := mem_added.mp hk
  obtain ⟨e, he, heq⟩ := List.mem_map.mp (mem_of_last_eq_some hv)
  have hkey : e.1 = k := congrArg (fun w : F64 × Option F64 => w.1) heq
  have hstored : (writeOf e).2 = some v := congrArg (fun w : F64 × Option F64 => w.2) heq
  rw [admitted_eq_filter, List.mem_filter, admits_maxLevel] at he
  have hnz : e.2.eq F64.zero = false := by
    obtain ⟨hval, hz⟩ := writeOf_snd_eq_some.mp hstored
    rwa [hval]
  have hcontains : m.contains e.1 = false := by
    rw [hkey]
    exact Bool.eq_false_iff.mpr hnew
  simp only [hnz, hcontains, Bool.or_self, Bool.false_or, Nat.add_zero, decide_eq_true_eq] at he
  omega

/-- Below the limit everything is admitted. -/
theorem admitted_of_room {s : Side} {n : ℕ} {m : Levels s} (hroom : m.size < n)
    (es : List (F64 × F64)) : admitted false (.maxLevel n) m 0 es = es := by
  rw [admitted_eq_filter, List.filter_eq_self]
  intro e _
  rw [admits_maxLevel]
  simp [hroom]

theorem size_update_le_iff {s : Side} {n : ℕ} {m : Levels s} (hle : m.size ≤ n)
    (es : List (F64 × F64)) :
    (replay m (writes (admitted false (.maxLevel n) m 0 es))).size ≤ n ↔ HasRoom n m es := by
  rcases Nat.lt_or_ge m.size n with hroom | hfull
  · have hcount := size_replay_add_card m (writes es)
    rw [admitted_of_room hroom, HasRoom]
    constructor
    · intro h _
      omega
    · intro h
      have := h hroom
      omega
  · have hcount := size_replay_add_card m (writes (admitted false (.maxLevel n) m 0 es))
    rw [added_admitted_of_full hfull, Finset.card_empty] at hcount
    refine iff_of_true (by omega) fun hroom => ?_
    omega

/-! ## The filter that counts while it goes -/

/-- The entries that would bring in a price: a size to store, and nothing held. -/
def newEntries {s : Side} (m : Levels s) (es : List (F64 × F64)) : List (F64 × F64) :=
  es.filter fun e => !e.2.eq F64.zero && !m.contains e.1

/-- Every new entry that is admitted has used up one place below the limit. -/
theorem length_newEntries_le {s : Side} (n : ℕ) (m : Levels s) (extra : ℕ)
    (es : List (F64 × F64)) :
    (newEntries m (admitted true (.maxLevel n) m extra es)).length ≤ n - (m.size + extra) := by
  induction es generalizing extra with
  | nil => simp [admitted, newEntries]
  | cons e es ih =>
    rw [admitted]
    cases hadm : admits (.maxLevel n) m extra e with
    | false => exact ih extra
    | true =>
      cases hheld : m.contains e.1 with
      | true => simpa [newEntries, hheld] using ih extra
      | false =>
        have hrest := ih (extra + 1)
        cases hz : e.2.eq F64.zero with
        | true =>
          have hskip : newEntries m (e :: admitted true (.maxLevel n) m (extra + 1) es)
              = newEntries m (admitted true (.maxLevel n) m (extra + 1) es) := by
            simp [newEntries, hz]
          simp only [if_true, Bool.not_false, Bool.and_true]
          rw [hskip]
          omega
        | false =>
          have hroom : m.size + extra < n := by simpa [admits_maxLevel, hz, hheld] using hadm
          have htake : newEntries m (e :: admitted true (.maxLevel n) m (extra + 1) es)
              = e :: newEntries m (admitted true (.maxLevel n) m (extra + 1) es) := by
            simp [newEntries, hz, hheld]
          simp only [if_true, Bool.not_false, Bool.and_true]
          rw [htake, List.length_cons]
          omega

/-- Each price a log brings in comes from a new entry. -/
theorem card_added_le {s : Side} (m : Levels s) (es : List (F64 × F64)) :
    (added m (writes es)).card ≤ (newEntries m es).length := by
  have hsub : added m (writes es) ⊆ ((newEntries m es).map Prod.fst).toFinset := by
    intro k hk
    obtain ⟨hnew, v, hv⟩ := mem_added.mp hk
    obtain ⟨e, he, hwrite⟩ := List.mem_map.mp (mem_of_last_eq_some hv)
    have hkey : e.1 = k := congrArg Prod.fst hwrite
    obtain ⟨hsize, hz⟩ := writeOf_snd_eq_some.mp (congrArg Prod.snd hwrite)
    rw [List.mem_toFinset, ← hkey]
    apply List.mem_map_of_mem
    rw [newEntries, List.mem_filter]
    refine ⟨he, ?_⟩
    have hcontains : m.contains e.1 = false := by
      rw [hkey]
      exact Bool.eq_false_iff.mpr hnew
    rw [hsize, hz, hcontains]
    rfl
  calc (added m (writes es)).card
      ≤ ((newEntries m es).map Prod.fst).toFinset.card := Finset.card_le_card hsub
    _ ≤ ((newEntries m es).map Prod.fst).length := List.toFinset_card_le _
    _ = (newEntries m es).length := List.length_map _

theorem size_counted_update_le {s : Side} {n : ℕ} {m : Levels s} (hle : m.size ≤ n)
    (es : List (F64 × F64)) :
    (replay m (writes (admitted true (.maxLevel n) m 0 es))).size ≤ n := by
  have hcount := size_replay_add_card m (writes (admitted true (.maxLevel n) m 0 es))
  have hadded := card_added_le m (admitted true (.maxLevel n) m 0 es)
  have hnew := length_newEntries_le n m 0 es
  omega

/-! ## Runs -/

namespace BookModel

variable {x : BookModel} {n : ℕ}

/-- Neither side has more than `n` levels. -/
def Bounded (x : BookModel) (n : ℕ) (b : x.Book) : Prop := ∀ s, (x.side b s).size ≤ n

def MsgHasRoom (x : BookModel) (n : ℕ) (b : x.Book) (msg : x.Msg) : Prop :=
  x.kind msg = .update → ∀ s, HasRoom n (x.side b s) (x.entries msg s)

theorem size_snapshot_le {msg : x.Msg} (hk : x.kind msg = .snapshot) {b : x.Book}
    (hb : x.Bounded n b) : x.Bounded n (x.processMsg msg (some (.maxLevel n)) b) := by
  intro s
  rw [x.side_snapshot _ _ _ _ hk]
  cases hes : x.snapshot msg (some (.maxLevel n)) s with
  | none => exact hb s
  | some es =>
    calc (replay ∅ (stores es)).size
        ≤ (stores es).length := size_replay_empty_le _
      _ ≤ es.length := by
          rw [stores, List.length_map]
          exact List.length_filter_le _ _
      _ ≤ n := x.snapshot_maxLevel_length msg n s es hk hes

theorem bounded_step_iff (hgrow : x.grow = false) {b : x.Book} (hb : x.Bounded n b) {msg : x.Msg}
    (hk : x.kind msg ≠ .order) :
    x.Bounded n (x.processMsg msg (some (.maxLevel n)) b) ↔ x.MsgHasRoom n b msg := by
  cases hkind : x.kind msg with
  | snapshot =>
    exact iff_of_true (size_snapshot_le hkind hb) fun h => by rw [hkind] at h; simp at h
  | update =>
    simp only [Bounded, MsgHasRoom, hkind, true_implies]
    refine forall_congr' fun s => ?_
    rw [x.side_update _ _ _ _ hkind, hgrow]
    exact size_update_le_iff (hb s) _
  | order => exact absurd hkind hk
  | idle =>
    refine iff_of_true (fun s => ?_) fun h => by rw [hkind] at h; simp at h
    rw [x.side_idle _ _ _ _ hkind]
    exact hb s

theorem always_bounded_iff (hgrow : x.grow = false) (hk : ∀ msg, x.kind msg ≠ .order)
    (msgs : List x.Msg) :
    Trace.Always (fun b msg => x.processMsg msg (some (.maxLevel n)) b) (x.Bounded n) x.new msgs ↔
      Trace.EachStep (fun b msg => x.processMsg msg (some (.maxLevel n)) b) (x.MsgHasRoom n)
        x.new msgs :=
  Trace.always_iff_eachStep (H := fun _ => True) (I := fun _ => True) trivial
    (fun s => by simp [x.side_new s]) (fun _ _ => trivial) (fun _ _ _ _ _ => trivial)
    (fun _ msg _ hb _ => bounded_step_iff hgrow hb (hk msg))

theorem bounded_counted_step (hgrow : x.grow = true) {b : x.Book} (hb : x.Bounded n b)
    {msg : x.Msg} (hk : x.kind msg ≠ .order) :
    x.Bounded n (x.processMsg msg (some (.maxLevel n)) b) := by
  cases hkind : x.kind msg with
  | snapshot => exact size_snapshot_le hkind hb
  | update =>
    intro s
    rw [x.side_update _ _ _ _ hkind, hgrow]
    exact size_counted_update_le (hb s) _
  | order => exact absurd hkind hk
  | idle =>
    intro s
    rw [x.side_idle _ _ _ _ hkind]
    exact hb s

theorem always_bounded_of_counted (hgrow : x.grow = true) {msgs : List x.Msg}
    (hmsgs : ∀ msg ∈ msgs, x.kind msg ≠ .order) :
    Trace.Always (fun b msg => x.processMsg msg (some (.maxLevel n)) b) (x.Bounded n) x.new
      msgs := by
  refine Trace.always_of_inductive (H := fun msg => x.kind msg ≠ .order) ?_ hmsgs ?_
  · intro s
    simp [x.side_new s]
  · intro b msg hb hk
    exact bounded_counted_step hgrow hb hk

end BookModel

/-- Both counts of a book are within `n`. -/
def OrderBook.Within (n : ℕ) (b : OrderBook) : Prop := b.numBids ≤ n ∧ b.numAsks ≤ n

theorem OrderBook.within_iff {n : ℕ} {b : OrderBook} :
    b.Within n ↔ ∀ s, (b.side s).size ≤ n := by
  constructor
  · rintro ⟨hb, ha⟩ s
    cases s
    · exact hb
    · exact ha
  · exact fun h => ⟨h .bid, h .ask⟩

/-- **When `MaxLevel` bounds the books of OKX and Kraken.** In every run from an empty book both
sides stay within `n` levels if and only if every update that meets a side below the limit brings
in no more prices than there is room for. -/
theorem maxLevel_within_iff (n : ℕ) :
    (∀ msgs : List Okx.OkxWsMessage,
      Trace.Always (fun b msg => Okx.processMsg msg (some (.maxLevel n)) b) (OrderBook.Within n)
          OrderBook.new msgs ↔
        Trace.EachStep (fun b msg => Okx.processMsg msg (some (.maxLevel n)) b)
          (Okx.model.MsgHasRoom n) OrderBook.new msgs) ∧
    (∀ msgs : List Kraken.KrakenWsMessage,
      Trace.Always (fun b msg => Kraken.processMsg msg (some (.maxLevel n)) b) (OrderBook.Within n)
          OrderBook.new msgs ↔
        Trace.EachStep (fun b msg => Kraken.processMsg msg (some (.maxLevel n)) b)
          (Kraken.model.MsgHasRoom n) OrderBook.new msgs) := by
  have hwithin : OrderBook.Within n = fun b => ∀ s, (b.side s).size ≤ n :=
    funext fun b => propext OrderBook.within_iff
  rw [hwithin]
  exact ⟨BookModel.always_bounded_iff (x := Okx.model) rfl fun _ => Lob.kindOf_ne_order,
    BookModel.always_bounded_iff (x := Kraken.model) rfl fun _ => Lob.kindOf_ne_order⟩

/-- One bid under `MaxLevel(2)`, then two more in one update: the side holds three. -/
theorem maxLevel_exceeded :
    ¬ ∀ (n : ℕ) (msgs : List Okx.OkxWsMessage),
      Trace.Always (fun b msg => Okx.processMsg msg (some (.maxLevel n)) b) (OrderBook.Within n)
        OrderBook.new msgs := by
  intro h
  have hbids := (h 2 [Okx.booksMsg "snapshot" [("100", "1")] [],
    Okx.booksMsg "update" [("99", "1"), ("98", "1")] []]).last.1
  exact absurd hbids (by decide +kernel)

/-- **`MaxLevel` bounds the Bitstamp book**, at every snapshot depth: after every message of a run
of snapshots and diffs neither side has more than `n` levels. -/
theorem Bitstamp.maxLevel_within (n depth : ℕ) {msgs : List BitstampWsMessage}
    (hmsgs : ∀ msg ∈ msgs, kindOf msg ≠ .order) :
    Trace.Always (fun b msg => OrderBook.processMsg msg (some (.maxLevel n)) b)
      (fun b => b.toOrderBook.Within n) (OrderBook.withSnapshotDepth depth) msgs := by
  have hbound := BookModel.always_bounded_of_counted (x := model depth) (n := n) rfl hmsgs
  have hrun := hbound.mono fun b hb => OrderBook.within_iff.mpr hb
  refine (Trace.always_map Subtype.val (model depth).new ?_).mpr hrun
  intro b msg
  rfl

/-- Two bids under `MaxLevel(3)`, then three new ones, a removal of an unknown price and a price
that comes twice. -/
theorem Bitstamp.maxLevel_within_example :
    Trace.Always (fun b msg => OrderBook.processMsg msg (some (.maxLevel 3)) b)
      (fun b => b.toOrderBook.Within 3) (OrderBook.withSnapshotDepth 400)
      [bookMsg "snapshot" [("100", "1"), ("99", "1")] [],
       bookMsg "data" [("98", "0"), ("97", "1"), ("97", "2"), ("96", "1"), ("95", "1")] []] :=
  maxLevel_within 3 400 (by simp [kindOf_bookMsg_snapshot, kindOf_bookMsg_data])

-- The bound is reached: 97 takes the third place, and 96 and 95 are refused.
example :
    (Bitstamp.OrderBook.processMsg
      (Bitstamp.bookMsg "data" [("97", "1"), ("96", "1"), ("95", "1")] []) (some (.maxLevel 3))
      (Bitstamp.OrderBook.processMsg (Bitstamp.bookMsg "snapshot" [("100", "1"), ("99", "1")] [])
        (some (.maxLevel 3)) Bitstamp.OrderBook.new)).numBids = 3 := by
  decide +kernel

end Cryptomeria
