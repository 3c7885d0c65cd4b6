import Cryptomeria.Bitstamp.Types
import Cryptomeria.Db
import Cryptomeria.Kraken.Types
import Cryptomeria.Num.Decimal

/-!
# The timestamps of rows

A message has its time in milliseconds, as a `u64`, and its rows have it in nanoseconds, as an
`i64`. The product is not checked. It is right up to a time in April 2262 (`dated_iff`), and the
three readers let later times through: `timestamps_fit_iff` says for which messages of each
exchange the rows have the right time.
-/

set_option autoImplicit false

namespace Cryptomeria

/-- The last millisecond whose nanoseconds are an `i64`. -/
def lastMs : ℕ := 9223372036854

/-- The product does not overflow, and rows of this millisecond have its nanoseconds. -/
structure Dated (tsMs : ℕ) : Prop where
  product : -2 ^ 63 ≤ (tsMs : ℤ).bmod (2 ^ 64) * 1000000 ∧
    (tsMs : ℤ).bmod (2 ^ 64) * 1000000 < 2 ^ 63
  lobLevel : ∀ instId exchange action side level bestBid bestAsk,
    (writeLobLevel instId exchange tsMs action side level bestBid bestAsk).timestamp
      = tsMs * 10 ^ 6
  trade : ∀ trade : TradeData, trade.tsMs = tsMs → trade.row.timestamp = tsMs * 10 ^ 6

theorem bmod_of_inRange {z : ℤ} (h : -2 ^ 63 ≤ z ∧ z < 2 ^ 63) : z.bmod (2 ^ 64) = z := by
  refine Int.bmod_eq_of_le ?_ ?_
  · norm_num
    omega
  · norm_num
    omega

theorem timestampNanos_eq_iff {tsMs : ℕ} :
    timestampNanos tsMs = tsMs * 10 ^ 6 ↔ tsMs ≤ lastMs := by
  unfold timestampNanos lastMs
  constructor
  · intro h
    have hlt := @Int.bmod_lt ((tsMs : ℤ).bmod (2 ^ 64) * 1000000) (2 ^ 64)
      (Nat.two_pow_pos 64)
    rw [h] at hlt
    omega
  · intro h
    rw [bmod_of_inRange (z := tsMs) (by omega), bmod_of_inRange (by omega)]
    norm_num

theorem dated_iff {tsMs : ℕ} : Dated tsMs ↔ tsMs ≤ lastMs := by
  have hrow : ∀ instId exchange action side level bestBid bestAsk,
      (writeLobLevel instId exchange tsMs action side level bestBid bestAsk).timestamp
        = timestampNanos tsMs := by
    intros
    rw [writeLobLevel]
  have hrow' : ∀ trade : TradeData, trade.row.timestamp = timestampNanos trade.tsMs := by
    intros
    rw [TradeData.row]
  rw [← timestampNanos_eq_iff]
  constructor
  · intro h
    rw [← hrow "" "" "" .bid {} none none]
    exact h.lobLevel _ _ _ _ _ _ _
  · intro h
    refine ⟨?_, fun _ _ _ _ _ _ _ => (hrow _ _ _ _ _ _ _).trans h, ?_⟩
    · rw [timestampNanos_eq_iff, lastMs] at h
      rw [bmod_of_inRange (z := tsMs) (by omega)]
      omega
    · rintro trade rfl
      exact (hrow' trade).trans h

/-- The time of a message, if it has one, is kept. -/
def KeepsTime (tsMs : Option ℕ) : Prop := ∀ ms ∈ tsMs, Dated ms

/-! ## The three readers -/

/-- Seconds that are less than the first millisecond too late; NaN counts as 0. -/
def SecondsInRange (secs : F64) : Prop :=
  F64.ge (secs.mul (.fin 1000)) (.fin (lastMs + 1)) = false

instance : DecidablePred SecondsInRange := fun _ => inferInstanceAs (Decidable (_ = false))

theorem toU64_le_lastMs_iff {x : F64} :
    x.toU64 ≤ lastMs ↔ F64.ge x (.fin (lastMs + 1)) = false := by
  cases x with
  | negInf => exact iff_of_true (by decide) (by decide)
  | fin q =>
    have hfloor : q.floor < lastMs + 1 ↔ q < lastMs + 1 := by
      rw [Rat.floor_lt_iff]
      push_cast
      rfl
    rw [F64.toU64, F64.ge_fin, decide_eq_false_iff_not, not_le, ← hfloor, lastMs]
    omega
  | posInf => exact iff_of_false (by decide) (by decide)
  | nan => exact iff_of_true (by decide) (by decide)

/-- A text under a key of the first data element. -/
def firstText (data : List Value) (key : String) : Option String :=
  (data.head?.bind fun d => d.get key).bind Value.asStr

namespace Okx

/-- The text is a number that is not too late. -/
def TimestampInRange (msg : OkxWsMessage) : Prop :=
  ∀ text ∈ firstText msg.data "ts", ∀ ms ∈ parseU64 text, ms ≤ lastMs

theorem keepsTime_iff (msg : OkxWsMessage) :
    KeepsTime msg.timestampMs ↔ TimestampInRange msg := by
  have htime : msg.timestampMs = (firstText msg.data "ts").bind parseU64 := by
    simp only [OkxWsMessage.timestampMs, firstText, Option.bind_eq_bind, Option.bind_assoc]
  unfold KeepsTime TimestampInRange
  simp only [htime, dated_iff]
  cases firstText msg.data "ts" <;> simp

end Okx

namespace Kraken

/-- The text is a date from 1970 on that is not too late, or seconds that are not. -/
def TimestampInRange (rfc3339 : String → Option ℤ) (msg : KrakenWsMessage) : Prop :=
  ∀ text ∈ firstText msg.data "timestamp",
    match rfc3339 text with
    | some ms => 0 ≤ ms ∧ ms ≤ lastMs
    | none => ∀ secs ∈ parseF64 text, SecondsInRange secs

theorem keepsTime_iff {rfc3339 : String → Option ℤ}
    (hrange : ∀ text, ∀ ms ∈ rfc3339 text, -2 ^ 63 ≤ ms ∧ ms < 2 ^ 63) (msg : KrakenWsMessage) :
    KeepsTime (msg.timestampMs rfc3339) ↔ TimestampInRange rfc3339 msg := by
  have htime : msg.timestampMs rfc3339
      = (firstText msg.data "timestamp").bind (parseKrakenTimestamp rfc3339) := by
    simp only [KrakenWsMessage.timestampMs, firstText, Option.bind_eq_bind, Option.bind_assoc]
  unfold KeepsTime TimestampInRange
  simp only [htime, dated_iff]
  cases firstText msg.data "timestamp" with
  | none => simp
  | some text =>
    simp only [Option.bind_some, Option.mem_def, Option.some_inj, forall_eq', parseKrakenTimestamp]
    cases hdate : rfc3339 text with
    | some ms =>
      have hms := hrange text ms hdate
      simp only [Option.some_inj, forall_eq', lastMs]
      omega
    | none =>
      simp only [Option.map_eq_some_iff, forall_exists_index, and_imp, forall_apply_eq_imp_iff₂,
        toU64_le_lastMs_iff, SecondsInRange]

end Kraken

namespace Bitstamp

/-- The seconds of an order entry, else of a trade. -/
def seconds (data : Value) : Option F64 :=
  ((OrderEntry.ofValue data).bind fun entry => parseF64 entry.timestamp).or
    ((TradeData.ofValue data).bind fun trade => parseF64 trade.timestamp)

def TimestampInRange (msg : BitstampWsMessage) : Prop :=
  ∀ data ∈ msg.data, ∀ secs ∈ seconds data, SecondsInRange secs

/-- A number of milliseconds would be read as seconds before. -/
theorem timestampMs_eq (msg : BitstampWsMessage) :
    msg.timestampMs
      = (msg.data.bind seconds).map fun secs => (secs.mul (.fin 1000)).toU64 := by
  have hms : ∀ text : String, ((parseF64 text).map fun secs => (secs.mul (.fin 1000)).toU64).or
      (parseU64 text) = (parseF64 text).map fun secs => (secs.mul (.fin 1000)).toU64 := by
    intro text
    cases hsecs : parseF64 text with
    | some secs => rfl
    | none => rw [parseU64_eq_none hsecs]; rfl
  cases hdata : msg.data with
  | none => simp [BitstampWsMessage.timestampMs, hdata]
  | some data =>
    simp only [BitstampWsMessage.timestampMs, hdata, Option.bind_eq_bind, Option.bind_some,
      seconds, hms, Option.map_or, Option.map_bind, Function.comp_def]

theorem keepsTime_iff (msg : BitstampWsMessage) :
    KeepsTime msg.timestampMs ↔ TimestampInRange msg := by
  unfold KeepsTime TimestampInRange
  simp only [timestampMs_eq, dated_iff]
  cases msg.data with
  | none => simp
  | some data =>
    simp only [Option.mem_def, Option.bind_some, Option.some_inj, forall_eq',
      Option.map_eq_some_iff, forall_exists_index, and_imp, forall_apply_eq_imp_iff₂,
      toU64_le_lastMs_iff, SecondsInRange]

end Bitstamp

/-- **When the rows of a message have its time**: for OKX, Kraken and Bitstamp. `rfc3339` answers
an `i64`. -/
theorem timestamps_fit_iff (rfc3339 : String → Option ℤ)
    (hrange : ∀ text, ∀ ms ∈ rfc3339 text, -2 ^ 63 ≤ ms ∧ ms < 2 ^ 63) :
    (∀ msg : Okx.OkxWsMessage, KeepsTime msg.timestampMs ↔ Okx.TimestampInRange msg) ∧
    (∀ msg : Kraken.KrakenWsMessage,
      KeepsTime (msg.timestampMs rfc3339) ↔ Kraken.TimestampInRange rfc3339 msg) ∧
    ∀ msg : Bitstamp.BitstampWsMessage,
      KeepsTime msg.timestampMs ↔ Bitstamp.TimestampInRange msg :=
  ⟨Okx.keepsTime_iff, Kraken.keepsTime_iff hrange, Bitstamp.keepsTime_iff⟩

/-- What the reader answers for one date in 2024, and nothing else. -/
def oneDate (text : String) : Option ℤ :=
  if text = "2024-01-15T10:30:00.000000Z" then some 1705314600000 else none

def datedMsg : Kraken.KrakenWsMessage :=
  { data := [.object [("timestamp", .string "2024-01-15T10:30:00.000000Z")]] }

theorem timestamps_fit_iff_oneDate :
    KeepsTime (datedMsg.timestampMs oneDate) ↔ Kraken.TimestampInRange oneDate datedMsg := by
  refine (timestamps_fit_iff oneDate ?_).2.1 datedMsg
  intro text ms hms
  rw [oneDate] at hms
  split at hms
  · rw [← Option.some.inj hms]
    norm_num
  · simp at hms

/-- The largest `u64` is minus one as an `i64`. -/
def lateMsg : Okx.OkxWsMessage :=
  { data := [.object [("ts", .string "18446744073709551615")]] }

theorem timestamp_wraps :
    ¬ ((∀ msg : Okx.OkxWsMessage, KeepsTime msg.timestampMs) ∧
      (∀ msg : Kraken.KrakenWsMessage, KeepsTime (msg.timestampMs oneDate)) ∧
      ∀ msg : Bitstamp.BitstampWsMessage, KeepsTime msg.timestampMs) := by
  intro h
  have hms : lateMsg.timestampMs = some (2 ^ 64 - 1) := by decide
  have hdated := dated_iff.mp (h.1 lateMsg _ hms)
  exact absurd hdated (by decide)

end Cryptomeria
