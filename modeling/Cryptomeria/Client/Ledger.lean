import Cryptomeria.Client.Trades

/-!
# The trades of the three clients

The ledgers of the three handlers. OKX and Kraken look at the first element of the data array only.
OKX counts it in every message that is not a book message, so an event can count as a trade; Kraken
counts every message of the trade channel, whatever it carries; Bitstamp counts every trade event,
with or without its data object.
-/

set_option autoImplicit false

namespace Cryptomeria

open Value

theorem World.tradeCount_incTradesTotal (cfg : Config) (w : World) :
    (w.incTradesTotal cfg).tradeCount cfg = w.tradeCount cfg + 1 := by
  simp [World.tradeCount, World.incTradesTotal, IntGaugeVec.inc]

theorem World.trades_persistTrade {stamp : Stamp} (h : stamp.flushOk = true) (trade : TradeData)
    (w : World) : (w.persistTrade stamp trade).trades = w.trades ++ [trade.row] := by
  simp [World.persistTrade, h]

theorem World.SameGauges.tradeCount {cfg : Config} {w w' : World} (h : w.SameGauges w') :
    w'.tradeCount cfg = w.tradeCount cfg := by
  rw [World.tradeCount, World.tradeCount, h.metrics]

theorem World.tradeCount_congr {cfg : Config} {w w' : World}
    (h : w'.metrics.tradesTotal = w.metrics.tradesTotal) :
    w'.tradeCount cfg = w.tradeCount cfg := by
  rw [World.tradeCount, World.tradeCount, h]

/-! ## The first object

All three handlers read one object of a message. With `data` for the objects that the message
carries, that is all of them only if there is at most one and it can be read. -/

section First

variable {α : Type} {read : Value → Option α} {data : List Value}

/-- What a handler reads of the objects of a message. -/
def firstRead (read : Value → Option α) (data : List Value) : List α :=
  (data.head?.bind read).toList

theorem length_firstRead_le : (firstRead read data).length ≤ data.length := by
  unfold firstRead
  cases data with
  | nil => simp
  | cons v vs => cases hv : read v <;> simp [hv]

theorem length_firstRead_eq_iff :
    (firstRead read data).length = data.length ↔
      data.length ≤ 1 ∧ ∀ v ∈ data, (read v).isSome := by
  unfold firstRead
  rcases data with _ | ⟨v, _ | ⟨v', vs⟩⟩
  · simp
  · cases hv : read v <;> simp [hv]
  · cases hv : read v <;> simp [hv]

theorem firstRead_numbers {numbers : Value → Option (F64 × F64)} {num : α → F64 × F64}
    (hread : ∀ v a, read v = some a → (numbers v).isSome → numbers v = some (num a))
    (hnum : ∀ v ∈ data, (numbers v).isSome) (hlen : (firstRead read data).length = data.length) :
    ((firstRead read data).map num).map some = data.map numbers := by
  obtain ⟨hone, hall⟩ := length_firstRead_eq_iff.mp hlen
  rcases data with _ | ⟨v, _ | ⟨v', vs⟩⟩
  · rfl
  · obtain ⟨a, ha⟩ := Option.isSome_iff_exists.mp (hall v List.mem_cons_self)
    simp [firstRead, ha, hread v a ha (hnum v List.mem_cons_self)]
  · simp at hone

/-- The objects of a message that may be one of the trade channel. -/
def carried (isTrade : Bool) (data : List Value) : List Value := if isTrade then data else []

/-- Prices and sizes of the rows for such a message. -/
def writtenOf (read : Value → Option α) (num : α → F64 × F64) (isTrade : Bool)
    (data : List Value) : List (F64 × F64) :=
  if isTrade then (firstRead read data).map num else []

theorem length_writtenOf_le {num : α → F64 × F64} (isTrade : Bool) (data : List Value) :
    (writtenOf read num isTrade data).length ≤ (carried isTrade data).length := by
  cases isTrade with
  | true => exact (List.length_map _).trans_le length_firstRead_le
  | false => exact le_refl _

theorem writtenOf_eq_carried {numbers : Value → Option (F64 × F64)} {num : α → F64 × F64}
    (hread : ∀ v a, read v = some a → (numbers v).isSome → numbers v = some (num a))
    {isTrade : Bool} (hnum : ∀ v ∈ carried isTrade data, (numbers v).isSome)
    (hlen : (writtenOf read num isTrade data).length = (carried isTrade data).length) :
    (writtenOf read num isTrade data).map some = (carried isTrade data).map numbers := by
  cases isTrade with
  | true => exact firstRead_numbers hread hnum ((List.length_map _).symm.trans hlen)
  | false => rfl

end First

/-! ## OKX -/

namespace Okx

def tradeObjects (msg : OkxWsMessage) : List Value :=
  carried (msg.messageType = .trade) msg.data

def tradeNumbers (v : Value) : Option (F64 × F64) := do
  let px ← ((v.get "px").bind asStr).bind parseF64
  let sz ← ((v.get "sz").bind asStr).bind parseF64
  return (px, sz)

def TradeData.numbers (trade : TradeData) : F64 × F64 :=
  ((parseF64 trade.px).getD F64.zero, (parseF64 trade.sz).getD F64.zero)

theorem tradeNumbers_of_read {v : Value} {trade : TradeData}
    (hr : TradeData.ofValue v = some trade) (hn : (tradeNumbers v).isSome) :
    tradeNumbers v = some trade.numbers := by
  obtain ⟨⟨px, sz⟩, hps⟩ := Option.isSome_iff_exists.mp hn
  rw [hps]
  cases v with
  | object fields =>
    simp only [tradeNumbers, Value.get, Option.bind_eq_bind, Option.bind_eq_some_iff,
      Option.pure_def, Option.some.injEq, Prod.mk.injEq] at hps
    obtain ⟨_, ⟨_, ⟨vpx, hpx, hspx⟩, hpx'⟩, _, ⟨_, ⟨vsz, hsz, hssz⟩, hsz'⟩, rfl, rfl⟩ := hps
    simp only [TradeData.ofValue, structFields, List.map_cons, List.map_nil, hpx, hsz] at hr
    simp only [Option.bind_eq_bind, Option.bind_some, fieldOr, readString, hspx, hssz,
      Option.bind_eq_some_iff, Option.pure_def, Option.some.injEq] at hr
    obtain ⟨_, _, _, _, _, _, _, _, rfl⟩ := hr
    simp [TradeData.numbers, hpx', hsz']
  | _ => simp [tradeNumbers, Value.get] at hps

def written (msg : OkxWsMessage) : List (F64 × F64) :=
  writtenOf TradeData.ofValue TradeData.numbers (msg.messageType = .trade) msg.data

def counted (msg : OkxWsMessage) : ℕ :=
  match msg.messageType with
  | .trade | .event | .unknown => (firstRead TradeData.ofValue msg.data).length
  | .l2Snapshot | .l2Update | .l2 => 0

/-- A message of the trades channel carries at most one object and it can be read; the first data
element of an event or an unknown message cannot be read as a trade. -/
def TradeSound (msg : OkxWsMessage) : Prop :=
  (msg.messageType = .trade →
    msg.data.length ≤ 1 ∧ ∀ v ∈ msg.data, (TradeData.ofValue v).isSome) ∧
  (msg.messageType = .event ∨ msg.messageType = .unknown → firstTrade msg = none)

theorem firstRead_eq (msg : OkxWsMessage) :
    firstRead TradeData.ofValue msg.data = (firstTrade msg).toList := rfl

theorem trades_persistMessage {cfg : Config} {stamp : Stamp} (h : stamp.flushOk = true)
    (msg : OkxWsMessage) (w : World) :
    (persistMessage cfg stamp msg w).trades.map TradeRow.priceSize
      = w.trades.map TradeRow.priceSize ++ written msg := by
  unfold persistMessage written writtenOf
  rw [firstRead_eq]
  cases msg.messageType with
  | trade =>
    cases firstTrade msg with
    | none => simp
    | some trade =>
      simp [h, World.trades_persistTrade h, TradeRow.priceSize, TradeData.numbers,
        Cryptomeria.TradeData.row]
  | _ => simp

theorem trades_reportMessage {cfg : Config} {stamp : Stamp} (hsender : cfg.sender = true)
    (h : stamp.flushOk = true) (msg : OkxWsMessage) (b : OrderBook) (w : World) :
    (reportMessage cfg stamp msg b w).trades.map TradeRow.priceSize
      = w.trades.map TradeRow.priceSize ++ written msg := by
  rw [reportMessage, if_pos hsender, trades_persistMessage h]
  congr 2
  cases msg.messageType with
  | trade | event | unknown =>
    cases firstTrade msg with
    | none => rfl
    | some trade => dsimp only; cases parseF64 trade.px <;> simp
  | _ => simp

theorem tradeCount_reportMessage {cfg : Config} {stamp : Stamp} (msg : OkxWsMessage) (b : OrderBook)
    (w : World) :
    (reportMessage cfg stamp msg b w).tradeCount cfg = w.tradeCount cfg + counted msg := by
  have hpersist : ∀ w' : World,
      (if cfg.sender then persistMessage cfg stamp msg w' else w').tradeCount cfg
        = w'.tradeCount cfg := by
    intro w'
    split
    · exact (sameGauges_persistMessage cfg stamp msg w').tradeCount
    · rfl
  rw [reportMessage, hpersist, counted, firstRead_eq]
  cases msg.messageType with
  | trade | event | unknown =>
    cases firstTrade msg with
    | none => rfl
    | some trade =>
      rw [Option.toList_some, List.length_singleton, ← World.tradeCount_incTradesTotal]
      dsimp only
      cases parseF64 trade.px with
      | none => rfl
      | some px => exact World.tradeCount_congr (by simp)
  | _ => exact World.tradeCount_congr (by simp)

theorem tradeSound_iff (msg : OkxWsMessage) :
    TradeSound msg ↔ (written msg).length = (tradeObjects msg).length ∧
      counted msg = (tradeObjects msg).length := by
  unfold TradeSound written counted tradeObjects writtenOf carried
  cases hm : msg.messageType with
  | trade => simp [length_firstRead_eq_iff]
  | event | unknown =>
    simp only [firstRead_eq]
    cases firstTrade msg <;> simp
  | _ => simp

theorem length_written_le_counted (msg : OkxWsMessage) : (written msg).length ≤ counted msg := by
  unfold written counted writtenOf
  cases msg.messageType <;> simp

def ledger : TradeLedger client where
  objects := tradeObjects
  numbers := tradeNumbers
  Sound := TradeSound
  written := written
  counted := counted
  written_le_objects _ := length_writtenOf_le _ _
  written_le_counted := length_written_le_counted
  written_eq _ := writtenOf_eq_carried fun _ _ => tradeNumbers_of_read
  sound_iff := tradeSound_iff
  report_trades _ _ msg _ b w hsender h := trades_reportMessage hsender h msg b w
  report_count _ _ msg _ b w := tradeCount_reportMessage msg b w
  answer_trades _ _ a := a.elim
  answer_count _ _ a := a.elim

end Okx

/-! ## Kraken -/

namespace Kraken

def tradeObjects (msg : KrakenWsMessage) : List Value :=
  carried (msg.messageType = .trade) msg.data

def tradeNumbers (v : Value) : Option (F64 × F64) := do
  let price ← (v.get "price").bind asF64
  let qty ← (v.get "qty").bind asF64
  return (price, qty)

def TradeData.numbers (trade : TradeData) : F64 × F64 := (trade.price, trade.qty)

theorem tradeNumbers_of_read {v : Value} {trade : TradeData}
    (hr : TradeData.ofValue v = some trade) (hn : (tradeNumbers v).isSome) :
    tradeNumbers v = some trade.numbers := by
  obtain ⟨⟨price, qty⟩, hpq⟩ := Option.isSome_iff_exists.mp hn
  rw [hpq]
  cases v with
  | object fields =>
    simp only [tradeNumbers, Value.get, Option.bind_eq_bind, Option.bind_eq_some_iff,
      Option.pure_def, Option.some.injEq, Prod.mk.injEq] at hpq
    obtain ⟨_, ⟨vp, hp, hsp⟩, _, ⟨vq, hq, hsq⟩, rfl, rfl⟩ := hpq
    simp only [TradeData.ofValue, structFields, List.map_cons, List.map_nil, hp, hq] at hr
    simp only [Option.bind_eq_bind, Option.bind_some, fieldOr, readF64, hsp, hsq,
      Option.bind_eq_some_iff, Option.pure_def, Option.some.injEq] at hr
    obtain ⟨_, _, _, _, _, _, _, _, rfl⟩ := hr
    rfl
  | _ => simp [tradeNumbers, Value.get] at hpq

def written (msg : KrakenWsMessage) : List (F64 × F64) :=
  writtenOf TradeData.ofValue TradeData.numbers (msg.messageType = .trade) msg.data

def counted (msg : KrakenWsMessage) : ℕ := if msg.messageType = .trade then 1 else 0

/-- A message of the trade channel carries exactly one object and it can be read. -/
def TradeSound (msg : KrakenWsMessage) : Prop :=
  msg.messageType = .trade →
    msg.data.length = 1 ∧ ∀ v ∈ msg.data, (TradeData.ofValue v).isSome

theorem firstRead_eq (msg : KrakenWsMessage) :
    firstRead TradeData.ofValue msg.data = (firstTrade msg).toList := rfl

variable {rfc3339 : String → Option ℤ} {cfg : Config} {stamp : Stamp}

theorem trades_persistMessage (h : stamp.flushOk = true) (msg : KrakenWsMessage) (w : World) :
    (persistMessage rfc3339 cfg stamp msg w).trades.map TradeRow.priceSize
      = w.trades.map TradeRow.priceSize ++ written msg := by
  unfold persistMessage written writtenOf
  rw [firstRead_eq]
  cases msg.messageType with
  | trade =>
    cases firstTrade msg with
    | none => simp
    | some trade =>
      simp [World.trades_persistTrade h, TradeRow.priceSize, TradeData.numbers,
        Cryptomeria.TradeData.row]
  | _ => simp

theorem trades_reportMessage (hsender : cfg.sender = true) (h : stamp.flushOk = true)
    (msg : KrakenWsMessage) (b : OrderBook) (w : World) :
    (reportMessage rfc3339 cfg stamp msg b w).trades.map TradeRow.priceSize
      = w.trades.map TradeRow.priceSize ++ written msg := by
  rw [reportMessage, if_pos hsender, trades_persistMessage h]
  congr 2
  cases msg.messageType with
  | trade => cases firstTrade msg <;> simp
  | _ => simp

theorem tradeCount_reportMessage (msg : KrakenWsMessage) (b : OrderBook) (w : World) :
    (reportMessage rfc3339 cfg stamp msg b w).tradeCount cfg = w.tradeCount cfg + counted msg := by
  have hpersist : ∀ w' : World,
      (if cfg.sender then persistMessage rfc3339 cfg stamp msg w' else w').tradeCount cfg
        = w'.tradeCount cfg := by
    intro w'
    split
    · exact (sameGauges_persistMessage rfc3339 cfg stamp msg w').tradeCount
    · rfl
  rw [reportMessage, hpersist, counted]
  cases msg.messageType with
  | trade =>
    rw [if_pos rfl, ← World.tradeCount_incTradesTotal]
    cases firstTrade msg with
    | none => rfl
    | some trade => exact World.tradeCount_congr (by simp)
  | _ => exact World.tradeCount_congr (by simp)

theorem tradeSound_iff (msg : KrakenWsMessage) :
    TradeSound msg ↔ (written msg).length = (tradeObjects msg).length ∧
      counted msg = (tradeObjects msg).length := by
  unfold TradeSound written counted tradeObjects writtenOf carried
  by_cases hm : msg.messageType = .trade
  · simp only [hm, true_implies, if_true, decide_true, List.length_map, length_firstRead_eq_iff]
    constructor
    · rintro ⟨hlen, hall⟩
      exact ⟨⟨hlen.le, hall⟩, hlen.symm⟩
    · rintro ⟨⟨-, hall⟩, hlen⟩
      exact ⟨hlen.symm, hall⟩
  · simp [hm]

theorem length_written_le_counted (msg : KrakenWsMessage) :
    (written msg).length ≤ counted msg := by
  unfold written counted writtenOf
  rw [firstRead_eq]
  by_cases hm : msg.messageType = .trade
  · cases firstTrade msg <;> simp [hm]
  · simp [hm]

def ledger (rfc3339 : String → Option ℤ) : TradeLedger (client rfc3339) where
  objects := tradeObjects
  numbers := tradeNumbers
  Sound := TradeSound
  written := written
  counted := counted
  written_le_objects _ := length_writtenOf_le _ _
  written_le_counted := length_written_le_counted
  written_eq _ := writtenOf_eq_carried fun _ _ => tradeNumbers_of_read
  sound_iff := tradeSound_iff
  report_trades _ _ msg _ b w hsender h := trades_reportMessage hsender h msg b w
  report_count _ _ msg _ b w := tradeCount_reportMessage msg b w
  answer_trades _ _ a := a.elim
  answer_count _ _ a := a.elim

end Kraken

/-! ## Bitstamp -/

namespace Bitstamp

def tradeObjects (msg : BitstampWsMessage) : List Value :=
  carried (msg.messageType = .trade) msg.data.toList

def tradeNumbers (v : Value) : Option (F64 × F64) := do
  let price ← ((v.get "price").bind readNumberOrString).bind parseF64
  let amount ← ((v.get "amount").bind readNumberOrString).bind parseF64
  return (price, amount)

def TradeData.numbers (trade : TradeData) : F64 × F64 :=
  ((parseF64 trade.price).getD F64.zero, (parseF64 trade.amount).getD F64.zero)

theorem tradeNumbers_of_read {v : Value} {trade : TradeData}
    (hr : TradeData.ofValue v = some trade) (hn : (tradeNumbers v).isSome) :
    tradeNumbers v = some trade.numbers := by
  obtain ⟨⟨price, amount⟩, hpa⟩ := Option.isSome_iff_exists.mp hn
  rw [hpa]
  cases v with
  | object fields =>
    simp only [tradeNumbers, Value.get, Option.bind_eq_bind, Option.bind_eq_some_iff,
      Option.pure_def, Option.some.injEq, Prod.mk.injEq] at hpa
    obtain ⟨_, ⟨_, ⟨vp, hp, hsp⟩, hp'⟩, _, ⟨_, ⟨va, ha, hsa⟩, ha'⟩, rfl, rfl⟩ := hpa
    simp only [TradeData.ofValue, structFields, List.map_cons, List.map_nil, hp, ha] at hr
    simp only [Option.bind_eq_bind, Option.bind_some, fieldOr, hsp, hsa,
      Option.bind_eq_some_iff, Option.pure_def, Option.some.injEq] at hr
    obtain ⟨_, _, _, _, _, _, _, _, _, _, _, _, rfl⟩ := hr
    simp [TradeData.numbers, hp', ha']
  | _ => simp [tradeNumbers, Value.get] at hpa

def written (msg : BitstampWsMessage) : List (F64 × F64) :=
  writtenOf TradeData.ofValue TradeData.numbers (msg.messageType = .trade) msg.data.toList

def counted (msg : BitstampWsMessage) : ℕ := if msg.messageType = .trade then 1 else 0

/-- A trade event carries its data object and it can be read. -/
def TradeSound (msg : BitstampWsMessage) : Prop :=
  msg.messageType = .trade → (tradeOf msg).isSome

theorem firstRead_eq (msg : BitstampWsMessage) :
    firstRead TradeData.ofValue msg.data.toList = (tradeOf msg).toList := by
  cases hd : msg.data <;> simp [firstRead, tradeOf, hd]

variable {cfg : Config} {stamp : Stamp}

theorem trades_persistMessage (h : stamp.flushOk = true) (msg : BitstampWsMessage) (w : World) :
    (persistMessage cfg stamp msg w).trades.map TradeRow.priceSize
      = w.trades.map TradeRow.priceSize ++ written msg := by
  unfold persistMessage written writtenOf
  rw [firstRead_eq]
  cases msg.messageType with
  | trade =>
    cases tradeOf msg with
    | none => simp
    | some trade =>
      simp [h, World.trades_persistTrade h, TradeRow.priceSize, TradeData.numbers,
        Cryptomeria.TradeData.row]
  | _ => simp

/-- A message that is no trade event writes no trade. -/
theorem written_of_ne (msg : BitstampWsMessage) (hm : msg.messageType ≠ .trade) :
    written msg = [] := by
  simp [written, writtenOf, hm]

theorem trades_reportMessage (hsender : cfg.sender = true) (h : stamp.flushOk = true)
    (msg : BitstampWsMessage) (before after : Session) (w : World) :
    (reportMessage cfg stamp msg before after w).trades.map TradeRow.priceSize
      = w.trades.map TradeRow.priceSize ++ written msg := by
  have hpersist : ∀ w' : World, (persistIfSender cfg stamp msg w').trades.map TradeRow.priceSize
      = w'.trades.map TradeRow.priceSize ++ written msg := by
    intro w'
    rw [persistIfSender, if_pos hsender, trades_persistMessage h]
  unfold reportMessage
  split
  · -- the first phase persists trades only
    cases hm : msg.messageType with
    | trade =>
      dsimp only
      cases (tradeOf msg).bind fun trade => parseF64 trade.price with
      | none => rw [hpersist, World.incTradesTotal_trades]
      | some px => rw [World.updateLastPrice_trades, hpersist, World.incTradesTotal_trades]
    | _ => simp [written_of_ne msg (by simp [hm])]
  · rw [hpersist]
    congr 2
    cases msg.messageType with
    | trade => cases tradeOf msg <;> simp
    | _ => simp

theorem tradeCount_reportMessage (msg : BitstampWsMessage) (before after : Session) (w : World) :
    (reportMessage cfg stamp msg before after w).tradeCount cfg
      = w.tradeCount cfg + counted msg := by
  unfold reportMessage counted
  split
  · cases msg.messageType with
    | trade =>
      dsimp only
      have hcount : (persistIfSender cfg stamp msg (w.incTradesTotal cfg)).tradeCount cfg
          = w.tradeCount cfg + 1 :=
        (sameGauges_persistIfSender cfg stamp msg _).tradeCount.trans
          (World.tradeCount_incTradesTotal cfg w)
      rw [if_pos rfl, ← hcount]
      cases (tradeOf msg).bind fun trade => parseF64 trade.price with
      | none => rfl
      | some px => exact World.tradeCount_congr World.updateLastPrice_tradesTotal
    | _ => simp
  · rw [(sameGauges_persistIfSender cfg stamp msg _).tradeCount]
    cases msg.messageType with
    | trade =>
      rw [if_pos rfl, ← World.tradeCount_incTradesTotal]
      cases tradeOf msg with
      | none => rfl
      | some trade => exact World.tradeCount_congr World.updateLastPrice_tradesTotal
    | _ => exact World.tradeCount_congr (by simp)

theorem tradeSound_iff (msg : BitstampWsMessage) :
    TradeSound msg ↔ (written msg).length = (tradeObjects msg).length ∧
      counted msg = (tradeObjects msg).length := by
  unfold TradeSound written counted tradeObjects writtenOf carried
  rw [firstRead_eq]
  by_cases hm : msg.messageType = .trade
  · cases hd : msg.data with
    | none => simp [hm, hd, tradeOf]
    | some v => cases hv : TradeData.ofValue v <;> simp [hm, hd, hv, tradeOf]
  · simp [hm]

theorem length_written_le_counted (msg : BitstampWsMessage) :
    (written msg).length ≤ counted msg := by
  unfold written counted writtenOf
  rw [firstRead_eq]
  by_cases hm : msg.messageType = .trade
  · cases tradeOf msg <;> simp [hm]
  · simp [hm]

def ledger : TradeLedger client where
  objects := tradeObjects
  numbers := tradeNumbers
  Sound := TradeSound
  written := written
  counted := counted
  written_le_objects _ := length_writtenOf_le _ _
  written_le_counted := length_written_le_counted
  written_eq _ := writtenOf_eq_carried fun _ _ => tradeNumbers_of_read
  sound_iff := tradeSound_iff
  report_trades _ _ msg before after w hsender h :=
    trades_reportMessage hsender h msg before after w
  report_count _ _ msg before after w := tradeCount_reportMessage msg before after w
  answer_trades cfg stamp a _ after w := by
    cases a with
    | ok snapshot => exact World.publish_trades
    | badJson | failed => rfl
  answer_count cfg stamp a _ after w := by
    cases a with
    | ok snapshot => exact World.tradeCount_congr World.publish_tradesTotal
    | badJson | failed => rfl

end Bitstamp

/-! ## All of them -/

def Venue.ledger (rfc3339 : String → Option ℤ) : (x : Venue) → TradeLedger (x.client rfc3339)
  | okx => Okx.ledger
  | kraken => Kraken.ledger rfc3339
  | bitstamp => Bitstamp.ledger

/-- **When no trade is lost, invented or counted twice.** After every run of a connection whose
trade objects have numeric prices and sizes, the rows written and the increase of `trades_total`
are those of the trade objects received if and only if every message received is sound. -/
theorem Venue.trades_exact_iff (x : Venue) (rfc3339 : String → Option ℤ) (cfg : Config)
    (hsender : cfg.sender = true) (filter : Option LobFilter) (w₀ : World)
    (es : List (ConnEvent (x.client rfc3339))) (hes : ∀ e ∈ es, e.FlushOk)
    (hnum : ∀ msg ∈ (es.foldl (Conn.step cfg filter) (Conn.new _ cfg, w₀)).1.received,
      ∀ v ∈ (x.ledger rfc3339).objects msg, ((x.ledger rfc3339).numbers v).isSome) :
    let st := es.foldl (Conn.step cfg filter) (Conn.new _ cfg, w₀)
    (x.ledger rfc3339).Exact cfg w₀ st.1.received st.2 ↔
      ∀ msg ∈ st.1.received, (x.ledger rfc3339).Sound msg :=
  TradeLedger.exact_iff ((x.ledger rfc3339).booked_run hsender w₀ es hes) hnum

/-! ### Two trades in one message -/

def tradeObject (tradeId px sz : String) : Value :=
  .object [("instId", .string "BTC-USDT"), ("tradeId", .string tradeId), ("px", .string px),
    ("sz", .string sz), ("side", .string "buy"), ("ts", .string "1700000000000")]

def twoTrades : Okx.OkxWsMessage :=
  { arg := some { channel := "trades", instId := "BTC-USDT" }
    data := [tradeObject "1" "100" "2", tradeObject "2" "101" "3"] }

/-- The message arrives and is read. -/
def twoTradesRun : List (ConnEvent Okx.client) :=
  [.arrive (.text "" (some twoTrades)), .poll { now := 0 }]

theorem flushOk_twoTradesRun : ∀ e ∈ twoTradesRun, e.FlushOk := by
  simp [twoTradesRun, ConnEvent.FlushOk]

theorem numbers_twoTradesRun (w₀ : World) :
    ∀ msg ∈ (twoTradesRun.foldl (Conn.step okxConfig none)
        (Conn.new Okx.client okxConfig, w₀)).1.received,
      ∀ v ∈ Okx.tradeObjects msg, (Okx.tradeNumbers v).isSome := by
  have hall : ∀ v ∈ Okx.tradeObjects twoTrades, (Okx.tradeNumbers v).isSome := by decide
  intro msg hmsg
  -- the run has received this one message
  obtain rfl : msg = twoTrades := List.mem_singleton.mp hmsg
  exact hall

theorem Venue.trades_exact_iff_twoTrades :
    let st := twoTradesRun.foldl (Conn.step okxConfig none) (Conn.new Okx.client okxConfig, {})
    Okx.ledger.Exact okxConfig {} st.1.received st.2 ↔
      ∀ msg ∈ st.1.received, Okx.TradeSound msg :=
  Venue.trades_exact_iff .okx (fun _ => none) okxConfig rfl none {} twoTradesRun
    flushOk_twoTradesRun (numbers_twoTradesRun {})

/-- Of two trades in one message the second is neither counted nor written. -/
theorem Venue.trade_lost :
    ¬ ∀ (x : Venue) (rfc3339 : String → Option ℤ) (cfg : Config), cfg.sender = true →
      ∀ (filter : Option LobFilter) (w₀ : World) (es : List (ConnEvent (x.client rfc3339))),
      (∀ e ∈ es, e.FlushOk) →
      let st := es.foldl (Conn.step cfg filter) (Conn.new _ cfg, w₀)
      (∀ msg ∈ st.1.received,
        ∀ v ∈ (x.ledger rfc3339).objects msg, ((x.ledger rfc3339).numbers v).isSome) →
      (x.ledger rfc3339).Exact cfg w₀ st.1.received st.2 := by
  intro h
  obtain ⟨-, hcount⟩ := h .okx (fun _ => none) okxConfig rfl none {} twoTradesRun
    flushOk_twoTradesRun (numbers_twoTradesRun {})
  exact absurd hcount (by decide)

end Cryptomeria
