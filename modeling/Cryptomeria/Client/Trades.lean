import Cryptomeria.Client.Venue

/-!
# Counting trades

A trade reaches the program in three steps: a message carries trade objects, `trades_total` is
raised, and a row goes to the `trades` table. A `TradeLedger` says for each message how many objects
it carries (`objects`), what is written (`written`) and by how much the counter goes up (`counted`),
and that the handlers do exactly that. Never more is written than was carried or counted, so over a
run the three can only agree if they agree for every single message (`tallies_agree_iff`).
-/

set_option autoImplicit false

namespace Cryptomeria

/-- Price and size of a row. -/
def TradeRow.priceSize (row : TradeRow) : F64 × F64 := (row.px, row.sz)

/-- The value of `trades_total` under the labels of the client. -/
def World.tradeCount (cfg : Config) (w : World) : ℕ := (w.metrics.tradesTotal[cfg.labels]?).getD 0

structure TradeLedger (c : ClientSpec) where
  /-- The trade objects of a message of the trade channel; none for other messages. -/
  objects : c.Msg → List Value
  /-- The price and size fields of a trade object, as numbers. -/
  numbers : Value → Option (F64 × F64)
  /-- Every object is read by the client, and nothing else counts as a trade. -/
  Sound : c.Msg → Prop
  written : c.Msg → List (F64 × F64)
  counted : c.Msg → ℕ
  written_le_objects : ∀ msg, (written msg).length ≤ (objects msg).length
  written_le_counted : ∀ msg, (written msg).length ≤ counted msg
  /-- What is written is what the objects say. -/
  written_eq : ∀ msg, (∀ v ∈ objects msg, (numbers v).isSome) →
    (written msg).length = (objects msg).length → (written msg).map some = (objects msg).map numbers
  sound_iff : ∀ msg, Sound msg ↔
    (written msg).length = (objects msg).length ∧ counted msg = (objects msg).length
  report_trades : ∀ cfg stamp msg before after w, cfg.sender = true → stamp.flushOk = true →
    (c.reportMessage cfg stamp msg before after w).trades.map TradeRow.priceSize
      = w.trades.map TradeRow.priceSize ++ written msg
  report_count : ∀ cfg stamp msg before after w,
    (c.reportMessage cfg stamp msg before after w).tradeCount cfg = w.tradeCount cfg + counted msg
  answer_trades : ∀ cfg stamp a before after w,
    (c.reportAnswer cfg stamp a before after w).trades = w.trades
  answer_count : ∀ cfg stamp a before after w,
    (c.reportAnswer cfg stamp a before after w).tradeCount cfg = w.tradeCount cfg

/-! ## Counting over a list -/

theorem sum_map_le {α : Type} (xs : List α) {f g : α → ℕ} (h : ∀ x, f x ≤ g x) :
    (xs.map f).sum ≤ (xs.map g).sum := by
  induction xs with
  | nil => exact le_refl _
  | cons x xs ih =>
    simp only [List.map_cons, List.sum_cons]
    exact Nat.add_le_add (h x) ih

/-- Where `a` is nowhere above `b` or `c`, the three sums agree only if all three agree
everywhere. -/
theorem tallies_agree_iff {α : Type} (xs : List α) {a b c : α → ℕ} (hab : ∀ x, a x ≤ b x)
    (hac : ∀ x, a x ≤ c x) :
    ((xs.map a).sum = (xs.map b).sum ∧ (xs.map c).sum = (xs.map b).sum) ↔
      ∀ x ∈ xs, a x = b x ∧ c x = b x := by
  induction xs with
  | nil => simp
  | cons x xs ih =>
    have hsb := sum_map_le xs hab
    have hsc := sum_map_le xs hac
    have hb := hab x
    have hc := hac x
    rw [List.forall_mem_cons, ← ih]
    simp only [List.map_cons, List.sum_cons]
    omega

/-! ## A run of a connection -/

/-- Every flush of the event succeeds. -/
def ConnEvent.FlushOk {c : ClientSpec} : ConnEvent c → Prop
  | .arrive _ => True
  | .poll stamp => stamp.flushOk = true
  | .answer stamp _ => stamp.flushOk = true

namespace TradeLedger

variable {c : ClientSpec} (l : TradeLedger c) {cfg : Config} {filter : Option LobFilter}

/-- The tables and the counter of `w` are those of `w₀` and what `msgs` add to them. -/
structure Booked (cfg : Config) (w₀ : World) (msgs : List c.Msg) (w : World) : Prop where
  trades : w.trades.map TradeRow.priceSize
    = w₀.trades.map TradeRow.priceSize ++ msgs.flatMap l.written
  count : w.tradeCount cfg = w₀.tradeCount cfg + (msgs.map l.counted).sum

variable {l} {w₀ : World} {st : Conn c × World}

theorem booked_step (hsender : cfg.sender = true) {e : ConnEvent c} (he : e.FlushOk)
    (h : l.Booked cfg w₀ st.1.received st.2) :
    l.Booked cfg w₀ (Conn.step cfg filter st e).1.received (Conn.step cfg filter st e).2 := by
  have heffect : Conn.Effect cfg filter st.1 st.2 e (Conn.step cfg filter st e) :=
    Conn.step_effect st e
  generalize Conn.step cfg filter st e = st' at heffect ⊢
  cases heffect with
  | quiet _ _ _ hreceived =>
    rw [hreceived]
    exact h
  | message _ _ hreceived =>
    rw [hreceived]
    refine ⟨?_, ?_⟩
    · rw [l.report_trades _ _ _ _ _ _ hsender he, List.flatMap_append, ← List.append_assoc]
      simp only [h.trades, List.flatMap_cons, List.flatMap_nil, List.append_nil]
    · rw [l.report_count, List.map_append, List.sum_append]
      have hcount := h.count
      simp only [World.tradeCount] at hcount ⊢
      simp only [List.map_cons, List.map_nil, List.sum_singleton]
      omega
  | answer _ _ hreceived =>
    rw [hreceived]
    refine ⟨?_, ?_⟩
    · rw [l.answer_trades]
      exact h.trades
    · rw [l.answer_count]
      exact h.count

theorem booked_run (l : TradeLedger c) (hsender : cfg.sender = true) (w₀ : World)
    (es : List (ConnEvent c)) (hes : ∀ e ∈ es, e.FlushOk) :
    let st := es.foldl (Conn.step cfg filter) (Conn.new c cfg, w₀)
    l.Booked cfg w₀ st.1.received st.2 :=
  (Trace.always_of_inductive (I := fun st : Conn c × World => l.Booked cfg w₀ st.1.received st.2)
    ⟨by simp [Conn.new], by simp [Conn.new]⟩ hes fun _ _ h he => booked_step hsender he h).last

/-- No trade of the messages is lost, invented or counted twice: one row for each object, with its
price and size, and the counter raised once for each. -/
def Exact (l : TradeLedger c) (cfg : Config) (w₀ : World) (msgs : List c.Msg) (w : World) : Prop :=
  (∃ rows, w.trades.map TradeRow.priceSize = w₀.trades.map TradeRow.priceSize ++ rows ∧
    rows.map some = (msgs.flatMap l.objects).map l.numbers) ∧
  w.tradeCount cfg = w₀.tradeCount cfg + (msgs.flatMap l.objects).length

theorem written_flatMap_eq {msgs : List c.Msg}
    (hnum : ∀ msg ∈ msgs, ∀ v ∈ l.objects msg, (l.numbers v).isSome)
    (hlen : ∀ msg ∈ msgs, (l.written msg).length = (l.objects msg).length) :
    (msgs.flatMap l.written).map some = (msgs.flatMap l.objects).map l.numbers := by
  induction msgs with
  | nil => rfl
  | cons msg msgs ih =>
    obtain ⟨hnum, hnums⟩ := List.forall_mem_cons.mp hnum
    obtain ⟨hlen, hlens⟩ := List.forall_mem_cons.mp hlen
    simp only [List.flatMap_cons, List.map_append, ih hnums hlens, l.written_eq msg hnum hlen]

theorem exact_iff {msgs : List c.Msg} {w : World} (h : l.Booked cfg w₀ msgs w)
    (hnum : ∀ msg ∈ msgs, ∀ v ∈ l.objects msg, (l.numbers v).isSome) :
    l.Exact cfg w₀ msgs w ↔ ∀ msg ∈ msgs, l.Sound msg := by
  have hsound : (∀ msg ∈ msgs, l.Sound msg) ↔
      (msgs.map fun msg => (l.written msg).length).sum
          = (msgs.map fun msg => (l.objects msg).length).sum ∧
        (msgs.map l.counted).sum = (msgs.map fun msg => (l.objects msg).length).sum := by
    rw [tallies_agree_iff msgs l.written_le_objects l.written_le_counted]
    exact forall₂_congr fun msg _ => l.sound_iff msg
  rw [Exact, h.trades, h.count, List.length_flatMap, Nat.add_left_cancel_iff]
  constructor
  · rintro ⟨⟨rows, hrows, hnumbers⟩, hcount⟩
    obtain rfl := List.append_cancel_left hrows
    have hlen := congrArg List.length hnumbers
    rw [List.length_map, List.length_map, List.length_flatMap, List.length_flatMap] at hlen
    exact hsound.mpr ⟨hlen, hcount⟩
  · intro hall
    refine ⟨⟨_, rfl, written_flatMap_eq hnum fun msg hmsg => ?_⟩, (hsound.mp hall).2⟩
    exact ((l.sound_iff msg).mp (hall msg hmsg)).1

end TradeLedger

end Cryptomeria
