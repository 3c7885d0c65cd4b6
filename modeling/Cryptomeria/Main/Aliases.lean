import Cryptomeria.Main.Instruments

/-!
# The resolver over any alias table

`resolve_one_instrument` with the table as a parameter; `resolveIn_coinAliases` says that the
embedded table gives the function of `main.rs`. What it answers for a pair depends on the names in
upper case only, except where the name is passed through (`resolveIn_symbol`).
-/

set_option autoImplicit false

namespace Cryptomeria

/-! ## ASCII -/

def IsAscii (s : String) : Prop := ∀ c ∈ s.toList, c.toNat < 128

instance : DecidablePred IsAscii := fun s =>
  decidable_of_iff ((s.toList.all fun c => decide (c.toNat < 128)) = true) <| by
    simp [IsAscii]

/-- `to_ascii_uppercase`, `to_ascii_lowercase` -/
def asciiUpper (s : String) : String := String.ofList (s.toList.map Char.toUpper)

def asciiLower (s : String) : String := String.ofList (s.toList.map Char.toLower)

/-- On ASCII the functions that look into the Unicode tables do what their documentation says. -/
structure Unicode.OnAscii (uni : Unicode) : Prop where
  toLowercase : ∀ s, IsAscii s → uni.toLowercase s = asciiLower s
  toUppercase : ∀ s, IsAscii s → uni.toUppercase s = asciiUpper s
  isAlphanumeric : ∀ c : Char, c.toNat < 128 → uni.isAlphanumeric c = c.isAlphanum
  charToLowercase : ∀ c : Char, c.toNat < 128 → uni.charToLowercase c = [c.toLower]

theorem Unicode.onAscii_ascii : Unicode.ascii.OnAscii :=
  ⟨fun _ _ => rfl, fun _ _ => rfl, fun _ _ => rfl, fun _ _ => rfl⟩

theorem toNat_toUpper_lt {c : Char} (h : c.toNat < 128) : c.toUpper.toNat < 128 := by
  by_cases hl : c.isLower
  · rw [Char.toUpper_eq_of_isLower hl, Char.toNat_ofNat]
    split <;> omega
  · rwa [Char.toUpper_eq_of_not_isLower hl]

theorem isAscii_asciiUpper {s : String} (h : IsAscii s) : IsAscii (asciiUpper s) := by
  intro c hc
  rw [asciiUpper, String.toList_ofList] at hc
  obtain ⟨c', hc', rfl⟩ := List.mem_map.mp hc
  exact toNat_toUpper_lt (h c' hc')

theorem isAscii_ofList {cs : List Char} :
    IsAscii (String.ofList cs) ↔ ∀ c ∈ cs, c.toNat < 128 := by
  rw [IsAscii, String.toList_ofList]

theorem isAscii_append {s t : String} : IsAscii (s ++ t) ↔ IsAscii s ∧ IsAscii t := by
  simp only [IsAscii, String.toList_append, List.forall_mem_append]

@[simp] theorem asciiUpper_asciiUpper (s : String) : asciiUpper (asciiUpper s) = asciiUpper s := by
  simp [asciiUpper, Function.comp_def]

@[simp] theorem toList_asciiUpper (s : String) :
    (asciiUpper s).toList = s.toList.map Char.toUpper := String.toList_ofList

/-- A character that is no letter is no other character's upper case. -/
theorem toUpper_eq_iff {m c : Char} (hm : m.isAlpha = false) : c.toUpper = m ↔ c = m := by
  constructor
  · intro h
    by_cases hl : c.isLower
    · have halpha := Char.isUpper_toUpper_eq_isAlpha c
      rw [h, Char.isAlpha, hl, Bool.or_true] at halpha
      simp [Char.isAlpha, halpha] at hm
    · rwa [Char.toUpper_eq_of_not_isLower hl] at h
  · rintro rfl
    refine Char.toUpper_eq_of_not_isLower fun hl => ?_
    simp [Char.isAlpha, hl] at hm

theorem mem_asciiUpper_iff {m : Char} (hm : m.isAlpha = false) {s : String} :
    m ∈ (asciiUpper s).toList ↔ m ∈ s.toList := by
  simp [toUpper_eq_iff hm]

/-- Letters differ in case only if they are the same in upper case. -/
theorem eqIgnoreAsciiCase_iff {s t : String} :
    eqIgnoreAsciiCase s t = true ↔ asciiUpper s = asciiUpper t := by
  rw [eqIgnoreAsciiCase, beq_iff_eq, ← String.toList_inj, toList_asciiUpper, toList_asciiUpper]
  constructor
  · intro h
    have hupper := congrArg (List.map Char.toUpper) h
    simpa [Function.comp_def] using hupper
  · intro h
    have hlower := congrArg (List.map Char.toLower) h
    simpa [Function.comp_def] using hlower

theorem isAscii_of_eqIgnoreAsciiCase {s t : String} (h : eqIgnoreAsciiCase s t = true)
    (ht : IsAscii t) : IsAscii s := by
  rw [eqIgnoreAsciiCase_iff] at h
  have hup : ∀ c ∈ s.toList.map Char.toUpper, c.toNat < 128 := by
    rw [← toList_asciiUpper, h]
    exact isAscii_asciiUpper ht
  intro c hc
  have hc' := hup _ (List.mem_map_of_mem hc)
  by_cases hl : c.isLower
  · -- a small letter is ASCII already
    simp only [Char.isLower, Bool.and_eq_true, decide_eq_true_eq, UInt32.le_iff_toNat_le] at hl
    have hle : c.toNat ≤ 122 := hl.2
    omega
  · rwa [Char.toUpper_eq_of_not_isLower hl] at hc'

/-! ## The resolver -/

/-- `(base, target, exchange_id)` -/
abbrev AliasTable := List (String × String × String)

/-- The targets that the exchange lists for a base. -/
def availableTargets (uni : Unicode) (aliases : AliasTable) (exchange base : String) :
    List String :=
  aliases.filterMap fun (ab, tgt, ae) =>
    if ae = exchange ∧ uni.toUppercase ab = base then some tgt else none

/-- The target that stands for `target`: the one listed, or a fallback. -/
def quoteIn (uni : Unicode) (available : List String) (target : String) : Option String :=
  (available.find? fun t => uni.toUppercase t = target).or
    (findFallbackTarget uni target available)

/-- `resolve_one_instrument`, with the table in place of `COIN_ALIASES`. -/
def resolveIn (aliases : AliasTable) (uni : Unicode) (instrument exchange : String) :
    String × String × String :=
  let (symbol, exchangeOverride) := parseExchangeOverride instrument
  let effectiveExchange := uni.toLowercase (exchangeOverride.getD exchange)
  let cliInstId := deleteSeparators (uni.toLowercase symbol)
  let sep := if '/' ∈ symbol.toList then '/' else '-'
  let formatted :=
    match symbol.toList.splitOn sep with
    | [base, target] =>
      let base := uni.toUppercase (String.ofList base)
      let target := uni.toUppercase (String.ofList target)
      match quoteIn uni (availableTargets uni aliases effectiveExchange base) target with
      | some quote => formatInstrument uni (base ++ "-" ++ quote) effectiveExchange
      | none => formatInstrument uni symbol effectiveExchange
    | _ => formatInstrument uni symbol effectiveExchange
  (formatted, effectiveExchange, cliInstId)

theorem resolveIn_coinAliases (uni : Unicode) (instrument exchange : String) :
    resolveIn coinAliases uni instrument exchange
      = resolveOneInstrument uni instrument exchange := by
  simp only [resolveIn, resolveOneInstrument, quoteIn, availableTargets]
  congr 2
  funext base target
  generalize List.filterMap _ coinAliases = available
  cases available.find? fun t =>
    decide (uni.toUppercase t = uni.toUppercase (String.ofList target)) <;> rfl

/-! ## The fallback -/

/-- The quote currencies that stand in for one another, in the order of preference. -/
def dollars : List String := ["USDT", "USDC", "USD"]

/-- A target of the list, in any letter case. -/
def lists (available : List String) (target : String) : Bool :=
  available.any fun t => eqIgnoreAsciiCase t target

section Fallback

variable {uni : Unicode}

theorem lists_congr {available : List String} {x y : String} (h : asciiUpper x = asciiUpper y) :
    lists available x = lists available y := by
  refine List.any_congr rfl fun t => ?_
  rw [Bool.eq_iff_iff, eqIgnoreAsciiCase_iff, eqIgnoreAsciiCase_iff, h]

theorem asciiUpper_of_mem_dollars {d : String} (h : d ∈ dollars) : asciiUpper d = d := by
  simp only [dollars, List.mem_cons, List.not_mem_nil, or_false] at h
  rcases h with rfl | rfl | rfl <;> decide

theorem isAscii_of_mem_dollars {d : String} (h : d ∈ dollars) : IsAscii d := by
  simp only [dollars, List.mem_cons, List.not_mem_nil, or_false] at h
  rcases h with rfl | rfl | rfl <;> decide

/-- **The fallback of a target that is not listed**: a dollar, if it is one itself. -/
theorem findFallbackTarget_eq (huni : uni.OnAscii) (requested : String) (available : List String) :
    findFallbackTarget uni requested available
      = if lists available requested then none
        else if uni.toUppercase requested ∈ dollars then dollars.find? (lists available)
        else none := by
  have hupper : ∀ d ∈ dollars, uni.toUppercase d = d := fun d hd => by
    rw [huni.toUppercase d (isAscii_of_mem_dollars hd), asciiUpper_of_mem_dollars hd]
  have husdt := hupper "USDT" (by decide)
  have husdc := hupper "USDC" (by decide)
  have husd := hupper "USD" (by decide)
  have hlists : ∀ target, (available.any fun t => eqIgnoreAsciiCase t target)
      = lists available target := fun _ => rfl
  have hfind : dollars.find? (lists available)
      = if lists available "USDT" then some "USDT" else if lists available "USDC" then some "USDC"
        else if lists available "USD" then some "USD" else none := by
    simp only [dollars, List.find?_cons, List.find?_nil]
    cases lists available "USDT" <;> cases lists available "USDC" <;>
      cases lists available "USD" <;> rfl
  simp only [findFallbackTarget, hlists, hfind]
  cases hreq : lists available requested with
  | true => rfl
  | false =>
    by_cases hmem : requested ∈ dollars
    · -- the guards of the source, one dollar at a time
      simp only [dollars, List.mem_cons, List.not_mem_nil, or_false] at hmem
      rcases hmem with rfl | rfl | rfl
      · simp only [husdt, hreq]
        cases lists available "USDC" <;> cases lists available "USD" <;> simp [dollars]
      · simp only [husdc, hreq]
        cases lists available "USDT" <;> cases lists available "USD" <;> simp [dollars]
      · simp only [husd, hreq]
        cases lists available "USDT" <;> cases lists available "USDC" <;> simp [dollars]
    · simp only [dollars, List.mem_cons, List.not_mem_nil, or_false, not_or] at hmem
      by_cases hupp : uni.toUppercase requested ∈ dollars
      · have hor := hupp
        simp only [dollars, List.mem_cons, List.not_mem_nil, or_false] at hor
        rw [if_pos hupp]
        simp only [hmem]
        rcases hor with h | h | h <;> rw [h] <;> cases lists available "USDT" <;>
          cases lists available "USDC" <;> cases lists available "USD" <;> simp
      · have hor := hupp
        simp only [dollars, List.mem_cons, List.not_mem_nil, or_false, not_or] at hor
        rw [if_neg hupp]
        simp [hmem, hor]

end Fallback

/-! ## What the resolver answers -/

theorem splitOn_pair {xs ys : List Char} {sep : Char} (hx : sep ∉ xs) (hy : sep ∉ ys) :
    (xs ++ sep :: ys).splitOn sep = [xs, ys] := by
  rw [List.splitOn_append_cons_self, List.splitOn_eq_singleton hx, List.splitOn_eq_singleton hy]
  rfl

theorem eq_of_splitOn_pair {cs xs ys : List Char} {sep : Char} (h : cs.splitOn sep = [xs, ys]) :
    cs = xs ++ sep :: ys := by
  have hjoin := @List.intercalate_splitOn _ cs _ _ sep
  rw [h, List.intercalate_cons_cons, List.intercalate_singleton] at hjoin
  simpa using hjoin.symm

theorem length_splitOn (xs : List Char) (sep : Char) :
    (xs.splitOn sep).length = xs.count sep + 1 := by
  induction xs with
  | nil => rfl
  | cons c xs ih =>
    rw [List.splitOn_cons_eq_if_modifyHead, List.count_cons]
    cases hc : c == sep <;> simp [ih]

section Symbol

variable {uni : Unicode} {aliases : AliasTable} {exchange base target x : String} {sep : Char}

/-- The symbol of a pair: the base in upper case and the quote that was found, or the name as it
stands. -/
theorem resolveIn_symbol (hx : x.toList = base.toList ++ sep :: target.toList)
    (hsep : sep = '/' ∨ sep = '-' ∧ '/' ∉ x.toList) (hbase : sep ∉ base.toList)
    (htarget : sep ∉ target.toList) (hat : '@' ∉ x.toList)
    (hexchange : uni.toLowercase exchange = exchange) :
    (resolveIn aliases uni x exchange).1
      = (quoteIn uni (availableTargets uni aliases exchange (uni.toUppercase base))
          (uni.toUppercase target)).elim (formatInstrument uni x exchange)
          fun quote => formatInstrument uni (uni.toUppercase base ++ "-" ++ quote) exchange := by
  have hparse : parseExchangeOverride x = (x, none) := by
    rw [parseExchangeOverride, rsplitAt_eq_none hat]
  have hsep' : (if '/' ∈ x.toList then '/' else '-') = sep := by
    rcases hsep with rfl | ⟨rfl, hno⟩
    · rw [if_pos (by simp [hx])]
    · rw [if_neg hno]
  simp only [resolveIn, hparse, Option.getD_none, hexchange, hsep']
  rw [hx, splitOn_pair hbase htarget]
  simp only [String.ofList_toList]
  cases quoteIn uni (availableTargets uni aliases exchange (uni.toUppercase base))
    (uni.toUppercase target) <;> rfl

/-- A name with two slashes is passed through. -/
theorem resolveIn_of_slashes (hx : 2 ≤ x.toList.count '/') (hat : '@' ∉ x.toList)
    (hexchange : uni.toLowercase exchange = exchange) :
    (resolveIn aliases uni x exchange).1 = formatInstrument uni x exchange := by
  have hparse : parseExchangeOverride x = (x, none) := by
    rw [parseExchangeOverride, rsplitAt_eq_none hat]
  have hmem : '/' ∈ x.toList := List.count_pos_iff.mp (by omega)
  simp only [resolveIn, hparse, Option.getD_none, hexchange, if_pos hmem]
  split
  · rename_i hsplit
    have hlen := congrArg List.length hsplit
    rw [length_splitOn] at hlen
    simp only [List.length_cons, List.length_nil] at hlen
    omega
  · rfl

/-- When something stands for the target: it is listed, or it is a dollar and some dollar is. -/
theorem quoteIn_isSome_iff (huni : uni.OnAscii) (htarget : IsAscii target)
    {available : List String} :
    (quoteIn uni available (uni.toUppercase target)).isSome = true ↔
      ∃ t ∈ available, uni.toUppercase t = uni.toUppercase target ∨
        uni.toUppercase target ∈ dollars ∧ ∃ d ∈ dollars, eqIgnoreAsciiCase t d = true := by
  have hup : uni.toUppercase target = asciiUpper target := huni.toUppercase target htarget
  have hup' : uni.toUppercase (asciiUpper target) = asciiUpper target := by
    rw [huni.toUppercase _ (isAscii_asciiUpper htarget), asciiUpper_asciiUpper]
  rw [quoteIn, findFallbackTarget_eq huni, hup, hup', Option.isSome_or, Bool.or_eq_true,
    List.find?_isSome]
  simp only [decide_eq_true_eq]
  by_cases hexact : ∃ t ∈ available, uni.toUppercase t = asciiUpper target
  · obtain ⟨t, ht, heq⟩ := hexact
    exact iff_of_true (Or.inl ⟨t, ht, heq⟩) ⟨t, ht, Or.inl heq⟩
  · have hlists : lists available (asciiUpper target) = false := by
      rw [lists, List.any_eq_false]
      intro t ht heq
      have hascii := isAscii_of_eqIgnoreAsciiCase heq (isAscii_asciiUpper htarget)
      refine hexact ⟨t, ht, ?_⟩
      rw [huni.toUppercase t hascii, eqIgnoreAsciiCase_iff.mp heq, asciiUpper_asciiUpper]
    have hfallback : (dollars.find? (lists available)).isSome = true ↔
        ∃ t ∈ available, ∃ d ∈ dollars, eqIgnoreAsciiCase t d = true := by
      rw [List.find?_isSome]
      simp only [lists, List.any_eq_true]
      exact ⟨fun ⟨d, hd, t, ht, h⟩ => ⟨t, ht, d, hd, h⟩, fun ⟨t, ht, d, hd, h⟩ => ⟨d, hd, t, ht, h⟩⟩
    rw [hlists, or_iff_right hexact]
    simp only [Bool.false_eq_true, if_false]
    constructor
    · intro h
      split at h
      · rename_i hdollar
        obtain ⟨t, ht, hd⟩ := hfallback.mp h
        exact ⟨t, ht, Or.inr ⟨hdollar, hd⟩⟩
      · simp at h
    · rintro ⟨t, ht, heq | ⟨hdollar, hd⟩⟩
      · exact absurd ⟨t, ht, heq⟩ hexact
      · rw [if_pos hdollar]
        exact hfallback.mpr ⟨t, ht, hd⟩

/-! ## How an exchange writes a symbol -/

/-- What an exchange makes of a character in upper case. -/
def exchangeChar (exchange : String) (c : Char) : Char :=
  if exchange = "kraken" then (if c = '-' then '/' else c)
  else if exchange = "bitstamp" then c.toLower
  else c

theorem formatInstrument_toList (huni : uni.OnAscii) (hx : IsAscii x) :
    (formatInstrument uni x exchange).toList
      = x.toList.map fun c => exchangeChar exchange c.toUpper := by
  unfold formatInstrument
  split
  · rw [huni.toUppercase x hx]
    simp [exchangeChar, Function.comp_def]
  · rw [huni.toLowercase x hx]
    simp [exchangeChar, asciiLower]
  · rename_i hkraken hbitstamp
    have hchar : ∀ c, exchangeChar exchange c = c := fun c => by
      rw [exchangeChar, if_neg hkraken, if_neg hbitstamp]
    rw [huni.toUppercase x hx, toList_asciiUpper]
    simp [hchar]

/-- A pair is written from its names in upper case and the separator. -/
theorem formatInstrument_pair (huni : uni.OnAscii) (hbase : IsAscii base) (htarget : IsAscii target)
    (hsep : sep = '/' ∨ sep = '-') (hx : x.toList = base.toList ++ sep :: target.toList) :
    (formatInstrument uni x exchange).toList
      = (asciiUpper base).toList.map (exchangeChar exchange) ++ exchangeChar exchange sep ::
          (asciiUpper target).toList.map (exchangeChar exchange) := by
  have hascii : IsAscii x := by
    intro c hc
    rw [hx, List.mem_append, List.mem_cons] at hc
    rcases hc with hc | rfl | hc
    · exact hbase c hc
    · rcases hsep with rfl | rfl <;> decide
    · exact htarget c hc
  have hself : sep.toUpper = sep := by
    rcases hsep with rfl | rfl <;> decide
  rw [formatInstrument_toList huni hascii, hx]
  simp [hself, Function.comp_def]

theorem formatInstrument_dash (huni : uni.OnAscii) (hbase : IsAscii base)
    (htarget : IsAscii target) :
    (formatInstrument uni (base ++ "-" ++ target) exchange).toList
      = (asciiUpper base).toList.map (exchangeChar exchange) ++ exchangeChar exchange '-' ::
          (asciiUpper target).toList.map (exchangeChar exchange) :=
  formatInstrument_pair huni hbase htarget (Or.inr rfl) (by simp)

end Symbol

end Cryptomeria
