import Mathlib

/-!
# The instruments of a command line

How `main.rs` reads `--instruments`, and how an entry becomes the symbol of an exchange, the
exchange, and the name that the client reports under. A symbol is looked up in `COIN_ALIASES`, with
the nearest dollar coin as a fallback. The name is the symbol in lower case without `/` and `-`.

The case mappings of Unicode are a parameter.
-/

set_option autoImplicit false

namespace Cryptomeria

/-- The functions of `str` and `char` that look into the Unicode tables. -/
structure Unicode where
  toLowercase : String → String
  toUppercase : String → String
  isAlphanumeric : Char → Bool
  charToLowercase : Char → List Char

/-- What they do on ASCII, for runs on fixed inputs. -/
def Unicode.ascii : Unicode where
  toLowercase s := String.ofList (s.toList.map Char.toLower)
  toUppercase s := String.ofList (s.toList.map Char.toUpper)
  isAlphanumeric := Char.isAlphanum
  charToLowercase c := [c.toLower]

/-- `(base, target, exchange_id)` -/
def coinAliases : List (String × String × String) :=
  [("BTC", "EUR", "okx"), ("ETH", "EUR", "okx"), ("SOL", "EUR", "okx"), ("LTC", "EUR", "okx"),
   ("XLM", "EUR", "okx"), ("ADA", "EUR", "okx"), ("DOGE", "EUR", "okx"), ("BTC", "USDT", "okx"),
   ("BTC", "USDC", "okx"), ("ETH", "USDT", "okx"), ("ETH", "USD", "okx"), ("SOL", "USDT", "okx"),
   ("SOL", "USD", "okx"), ("LTC", "USDT", "okx"), ("XLM", "USDT", "okx"), ("ADA", "USDT", "okx"),
   ("ADA", "USD", "okx"), ("DOGE", "USDT", "okx"), ("DOGE", "USDC", "okx"),
   ("XBT", "USD", "kraken"), ("XBT", "EUR", "kraken"), ("XBT", "USDC", "kraken"),
   ("ETH", "USD", "kraken"), ("ETH", "EUR", "kraken"), ("SOL", "USD", "kraken"),
   ("SOL", "EUR", "kraken"), ("LTC", "USD", "kraken"), ("LTC", "EUR", "kraken"),
   ("LTC", "GBP", "kraken"), ("LTC", "USDT", "kraken"), ("XLM", "USD", "kraken"),
   ("XLM", "EUR", "kraken"), ("ADA", "USD", "kraken"), ("ADA", "EUR", "kraken"),
   ("ADA", "USDC", "kraken"), ("XDG", "USD", "kraken"), ("XDG", "USDT", "kraken"),
   ("XDG", "EUR", "kraken"), ("BTC", "USD", "bitstamp"), ("ETH", "USD", "bitstamp"),
   ("SOL", "USD", "bitstamp"), ("LTC", "USD", "bitstamp"), ("XLM", "USD", "bitstamp"),
   ("XLM", "EUR", "bitstamp"), ("ADA", "USD", "bitstamp"), ("ADA", "EUR", "bitstamp"),
   ("DOGE", "USD", "bitstamp")]

/-! ## The list -/

/-- `char::is_whitespace` -/
def isWhitespace (c : Char) : Bool :=
  let n := c.toNat
  (9 ≤ n && n ≤ 13) || n == 0x20 || n == 0x85 || n == 0xA0 || n == 0x1680
    || (0x2000 ≤ n && n ≤ 0x200A) || n == 0x2028 || n == 0x2029 || n == 0x202F || n == 0x205F
    || n == 0x3000

def trim (s : List Char) : List Char := (s.dropWhile isWhitespace).rdropWhile isWhitespace

/-- What stands before and after the last `@`. -/
def rsplitAt : List Char → Option (List Char × List Char)
  | [] => none
  | c :: cs =>
    match rsplitAt cs with
    | some (symbol, exchange) => some (c :: symbol, exchange)
    | none => if c = '@' then some ([], cs) else none

def parseExchangeOverride (s : String) : String × Option String :=
  match rsplitAt s.toList with
  | some (symbol, exchange) => (String.ofList symbol, some (String.ofList exchange))
  | none => (s, none)

theorem rsplitAt_eq_none {cs : List Char} (h : '@' ∉ cs) : rsplitAt cs = none := by
  induction cs with
  | nil => rfl
  | cons c cs ih =>
    rw [List.mem_cons, not_or] at h
    rw [rsplitAt, ih h.2, if_neg (Ne.symm h.1)]

theorem rsplitAt_append (symbol : List Char) {exchange : List Char} (h : '@' ∉ exchange) :
    rsplitAt (symbol ++ '@' :: exchange) = some (symbol, exchange) := by
  induction symbol with
  | nil => rw [List.nil_append, rsplitAt, rsplitAt_eq_none h, if_pos rfl]
  | cons c cs ih => rw [List.cons_append, rsplitAt, ih]

theorem exists_rsplitAt {cs : List Char} (h : '@' ∈ cs) :
    ∃ symbol exchange, cs = symbol ++ '@' :: exchange ∧ '@' ∉ exchange := by
  induction cs with
  | nil => simp at h
  | cons c cs ih =>
    by_cases hcs : '@' ∈ cs
    · obtain ⟨symbol, exchange, rfl, hno⟩ := ih hcs
      exact ⟨c :: symbol, exchange, rfl, hno⟩
    · obtain rfl : '@' = c := (List.mem_cons.mp h).resolve_right hcs
      exact ⟨[], cs, rfl, hcs⟩

/-- The variables of the loop of `parse_instruments_list`. -/
structure InstrumentsList where
  results : List (String × String) := []
  impliedExchange : Option String := none

def InstrumentsList.push (defaultExchange : String) (self : InstrumentsList) (part : List Char) :
    InstrumentsList :=
  let trimmed := trim part
  if trimmed = [] then self
  else
    match rsplitAt trimmed with
    | some ([], exchange) =>
      -- `@exchange` takes the symbol of the entry before, once there was a `symbol@exchange`
      match self.impliedExchange.bind fun _ => self.results.getLast? with
      | some last => { self with results := self.results ++ [(last.1, String.ofList exchange)] }
      | none => self
    | some (symbol, exchange) =>
      { results := self.results ++ [(String.ofList symbol, String.ofList exchange)]
        impliedExchange := some (String.ofList exchange) }
    | none => { self with results := self.results ++ [(String.ofList trimmed, defaultExchange)] }

/-- The entries, as symbol and exchange. -/
def parseInstrumentsList (input defaultExchange : String) : List (String × String) :=
  ((input.toList.splitOn ',').foldl (InstrumentsList.push defaultExchange) {}).results

example : parseInstrumentsList "BTC-USDT@okx, @kraken,,ETH/USD" "bitstamp"
    = [("BTC-USDT", "okx"), ("BTC-USDT", "kraken"), ("ETH/USD", "bitstamp")] := by
  decide

/-! ## One entry -/

def eqIgnoreAsciiCase (a b : String) : Bool :=
  a.toList.map Char.toLower == b.toList.map Char.toLower

/-- `find_fallback_target` -/
def findFallbackTarget (uni : Unicode) (requested : String) (available : List String) :
    Option String :=
  let has target := available.any fun t => eqIgnoreAsciiCase t target
  if has requested then none
  else if requested = "USDC" && !has "USDC" && has "USDT" then some "USDT"
  else if requested = "USDT" && !has "USDT" && has "USDC" then some "USDC"
  else if (requested = "USDC" || requested = "USDT") && !has "USDC" && !has "USDT" && has "USD" then
    some "USD"
  else if requested = "USD" && !has "USD" then
    if has "USDT" then some "USDT" else if has "USDC" then some "USDC" else none
  else
    let upper := uni.toUppercase requested
    if upper = "USDC" || upper = "USDT" || upper = "USD" then
      if has "USDT" then some "USDT"
      else if has "USDC" then some "USDC"
      else if has "USD" then some "USD"
      else none
    else none

/-- `s.replace(['/', '-'], "")` -/
def deleteSeparators (s : String) : String :=
  String.ofList (s.toList.filter fun c => c != '/' && c != '-')

/-- A symbol as the exchange writes it. -/
def formatInstrument (uni : Unicode) (symbol exchange : String) : String :=
  match exchange with
  | "kraken" =>
    String.ofList ((uni.toUppercase symbol).toList.map fun c => if c = '-' then '/' else c)
  | "bitstamp" => uni.toLowercase symbol
  | _ => uni.toUppercase symbol

/-- The symbol of the exchange, the exchange, and the name to report under. -/
def resolveOneInstrument (uni : Unicode) (instrument exchange : String) :
    String × String × String :=
  let (symbol, exchangeOverride) := parseExchangeOverride instrument
  let effectiveExchange := uni.toLowercase (exchangeOverride.getD exchange)
  let cliInstId := deleteSeparators (uni.toLowercase symbol)
  let sep := if '/' ∈ symbol.toList then '/' else '-'
  let formatted :=
    match symbol.toList.splitOn sep with
    | [base, target] =>
      let base := uni.toUppercase (String.ofList base)
      let target := uni.toUppercase (String.ofList target)
      let availableTargets := coinAliases.filterMap fun (ab, tgt, ae) =>
        if ae = effectiveExchange ∧ uni.toUppercase ab = base then some tgt else none
      match availableTargets.find? fun t => uni.toUppercase t = target with
      | some found => formatInstrument uni (base ++ "-" ++ found) effectiveExchange
      | none =>
        match findFallbackTarget uni target availableTargets with
        | some fallback => formatInstrument uni (base ++ "-" ++ fallback) effectiveExchange
        | none => formatInstrument uni symbol effectiveExchange
    | _ => formatInstrument uni symbol effectiveExchange
  (formatted, effectiveExchange, cliInstId)

example : resolveOneInstrument .ascii "doge/usd" "okx" = ("DOGE-USDT", "okx", "dogeusd") := by
  decide

end Cryptomeria
