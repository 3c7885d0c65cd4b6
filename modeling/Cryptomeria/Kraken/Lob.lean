import Cryptomeria.Kraken.Types
import Cryptomeria.Lob.Process

/-!
# The Kraken order book

`kraken/lob.rs`: levels are objects with two numbers.
-/

set_option autoImplicit false

namespace Cryptomeria
namespace Kraken

abbrev PriceLevel := F64 × F64

def parseLevels (data : Value) (key : String) : List PriceLevel :=
  (((data.get key).bind Value.asArray).map fun arr =>
    arr.filterMap fun v => do
      let price ← (v.get "price").bind Value.asF64
      let qty ← (v.get "qty").bind Value.asF64
      return (price, qty)).getD []

def parseLevel (level : PriceLevel) : Option (F64 × F64) :=
  let (price, amount) := level
  if price.isNan || amount.isNan then none else some (price, amount)

/-- `OrderBook::process_msg`: the filters look at the raw numbers. -/
def processMsg (msg : KrakenWsMessage) (filter : Option LobFilter) (self : OrderBook) :
    OrderBook :=
  Lob.processMsg some parseLevel parseLevels msg.data msg.msgType filter self

/-- A JSON number is never NaN, so a level that was taken out of a message can be applied. -/
theorem parseLevel_of_mem_parseLevels {data : Value} {key : String} {level : PriceLevel}
    (h : level ∈ parseLevels data key) : parseLevel level = some level := by
  have hfin : ∀ v p, Value.asF64 v = some p → p.isNan = false := by
    intro v p hp
    cases v with
    | number n =>
      cases n <;>
      · obtain rfl := Option.some.inj hp
        rfl
    | _ => simp [Value.asF64] at hp
  obtain ⟨price, qty⟩ := level
  unfold parseLevels at h
  cases harr : (data.get key).bind Value.asArray with
  | none => simp [harr] at h
  | some arr =>
    simp only [harr, Option.map_some, Option.getD_some, List.mem_filterMap] at h
    obtain ⟨v, -, hv⟩ := h
    simp only [Option.bind_eq_bind, Option.bind_eq_some_iff, Option.pure_def, Option.some.injEq,
      Prod.mk.injEq] at hv
    obtain ⟨_, ⟨v₁, -, h₁⟩, _, ⟨v₂, -, h₂⟩, rfl, rfl⟩ := hv
    simp [parseLevel, hfin v₁ _ h₁, hfin v₂ _ h₂]

/-- A message of the `book` channel with these levels. -/
def bookMsg (msgType : String) (bids asks : List (ℤ × ℤ)) : KrakenWsMessage :=
  let levels (side : List (ℤ × ℤ)) : Value :=
    .array (side.map fun (price, qty) =>
      .object [("price", .number (.int price)), ("qty", .number (.int qty))])
  { channel := some "book"
    msgType := some msgType
    data := [.object [("bids", levels bids), ("asks", levels asks)]] }

end Kraken
end Cryptomeria
