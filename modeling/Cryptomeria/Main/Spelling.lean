import Cryptomeria.Main.Aliases
import Cryptomeria.Main.Tasks

/-!
# Spellings of a pair

`BTC/USD`, `btc-usd` and so on name one pair, and an exchange should be asked for one symbol. The
resolver looks names up in upper case and takes either separator. A name that it cannot resolve is
written as it was given, and then the separator goes along: Kraken replaces it and the channel of
Bitstamp drops it, but OKX keeps it (`subscription_spelling_iff`).
-/

set_option autoImplicit false

namespace Cryptomeria

/-- An ASCII name without the characters that separate names. -/
structure IsPlain (s : String) : Prop where
  ascii : IsAscii s
  marks : ∀ m ∈ ['/', '-', ',', '@'], m ∉ s.toList

/-- `x` names the pair, with either separator and in any letter case. -/
def Spells (base target x : String) : Prop :=
  ∃ b t sep, eqIgnoreAsciiCase b base = true ∧ eqIgnoreAsciiCase t target = true ∧
    (sep = '/' ∨ sep = '-') ∧ x.toList = b.toList ++ sep :: t.toList

/-- What the exchange is asked for: the symbol, and for Bitstamp the name of the channel. -/
def subscription (uni : Unicode) (aliases : AliasTable) (exchange instrument : String) : String :=
  let symbol := (resolveIn aliases uni instrument exchange).1
  if exchange = "bitstamp" then CliArgs.instrumentToChannel uni symbol else symbol

/-- The table lists the pair for the exchange, or it is a dollar pair and the table lists the base
in some dollar. -/
def Resolvable (uni : Unicode) (aliases : AliasTable) (exchange base target : String) : Prop :=
  ∃ t ∈ availableTargets uni aliases exchange (uni.toUppercase base),
    uni.toUppercase t = uni.toUppercase target ∨
      uni.toUppercase target ∈ dollars ∧ ∃ d ∈ dollars, eqIgnoreAsciiCase t d = true

section Spelling

variable {uni : Unicode} {aliases : AliasTable} {exchange base target b t x y : String}

theorem IsPlain.of_case (h : IsPlain base) (hb : eqIgnoreAsciiCase b base = true) : IsPlain b := by
  refine ⟨isAscii_of_eqIgnoreAsciiCase hb h.ascii, fun m hm hmem => h.marks m hm ?_⟩
  have halpha : m.isAlpha = false := by
    simp only [List.mem_cons, List.not_mem_nil, or_false] at hm
    rcases hm with rfl | rfl | rfl | rfl <;> decide
  rw [← mem_asciiUpper_iff halpha, ← eqIgnoreAsciiCase_iff.mp hb, mem_asciiUpper_iff halpha]
  exact hmem

/-- The quote that every spelling of the pair leads to. -/
def quoteOf (uni : Unicode) (aliases : AliasTable) (exchange base target : String) :
    Option String :=
  quoteIn uni (availableTargets uni aliases exchange (uni.toUppercase base))
    (uni.toUppercase target)

theorem resolvable_iff (huni : uni.OnAscii) (ht : IsPlain target) :
    Resolvable uni aliases exchange base target ↔
      (quoteOf uni aliases exchange base target).isSome = true :=
  (quoteIn_isSome_iff huni ht.ascii).symm

/-- A spelling counts only where the name is passed through. -/
theorem resolveIn_of_spells (huni : uni.OnAscii) (hb : IsPlain base) (ht : IsPlain target)
    (hexchange : exchange ∈ ["okx", "kraken", "bitstamp"]) (hx : Spells base target x) :
    (resolveIn aliases uni x exchange).1
      = (quoteOf uni aliases exchange base target).elim (formatInstrument uni x exchange)
          fun quote => formatInstrument uni (uni.toUppercase base ++ "-" ++ quote) exchange := by
  obtain ⟨b, t, sep, hcb, hct, hsep, hx⟩ := hx
  have hpb := hb.of_case hcb
  have hpt := ht.of_case hct
  have hlower : uni.toLowercase exchange = exchange := by
    simp only [List.mem_cons, List.not_mem_nil, or_false] at hexchange
    rcases hexchange with rfl | rfl | rfl <;>
      exact (huni.toLowercase _ (by decide)).trans (by decide)
  have hbase : uni.toUppercase b = uni.toUppercase base := by
    rw [huni.toUppercase b hpb.ascii, huni.toUppercase base hb.ascii,
      eqIgnoreAsciiCase_iff.mp hcb]
  have htarget : uni.toUppercase t = uni.toUppercase target := by
    rw [huni.toUppercase t hpt.ascii, huni.toUppercase target ht.ascii,
      eqIgnoreAsciiCase_iff.mp hct]
  have hnot : ∀ m ∈ ['/', '-', ',', '@'], m ≠ sep → m ∉ x.toList := by
    intro m hm hne
    rw [hx, List.mem_append, List.mem_cons, not_or, not_or]
    exact ⟨hpb.marks m hm, hne, hpt.marks m hm⟩
  have hmark : sep ∈ ['/', '-', ',', '@'] := by
    rcases hsep with rfl | rfl <;> simp
  rw [resolveIn_symbol hx ?_ (hpb.marks sep hmark) (hpt.marks sep hmark) ?_ hlower, hbase, htarget]
  · rfl
  · rcases hsep with rfl | rfl
    · exact Or.inl rfl
    · exact Or.inr ⟨rfl, hnot '/' (by simp) (by decide)⟩
  · rcases hsep with rfl | rfl <;> exact hnot '@' (by simp) (by decide)

/-- How a spelling looks that is passed through. -/
theorem formatInstrument_of_spells (huni : uni.OnAscii) (hb : IsPlain base) (ht : IsPlain target)
    (hx : Spells base target x) :
    ∃ sep, (sep = '/' ∨ sep = '-') ∧ (formatInstrument uni x exchange).toList
      = (asciiUpper base).toList.map (exchangeChar exchange) ++ exchangeChar exchange sep ::
          (asciiUpper target).toList.map (exchangeChar exchange) := by
  obtain ⟨b, t, sep, hcb, hct, hsep, hx⟩ := hx
  refine ⟨sep, hsep, ?_⟩
  rw [formatInstrument_pair huni (hb.of_case hcb).ascii (ht.of_case hct).ascii hsep hx,
    eqIgnoreAsciiCase_iff.mp hcb, eqIgnoreAsciiCase_iff.mp hct]

/-- Kraken writes both separators alike, and the channel of Bitstamp has none. -/
theorem subscription_raw (huni : uni.OnAscii) (hb : IsPlain base) (ht : IsPlain target)
    (hexchange : exchange = "kraken" ∨ exchange = "bitstamp") (hx : Spells base target x)
    (hy : Spells base target y) :
    (let symbol := formatInstrument uni x exchange
      if exchange = "bitstamp" then CliArgs.instrumentToChannel uni symbol else symbol)
      = (let symbol := formatInstrument uni y exchange
        if exchange = "bitstamp" then CliArgs.instrumentToChannel uni symbol else symbol) := by
  obtain ⟨sep, hsep, hsx⟩ := @formatInstrument_of_spells uni exchange base target x huni hb ht hx
  obtain ⟨sep', hsep', hsy⟩ := @formatInstrument_of_spells uni exchange base target y huni hb ht hy
  rcases hexchange with rfl | rfl
  · have hslash : ∀ {c : Char}, c = '/' ∨ c = '-' → exchangeChar "kraken" c = '/' := by
      rintro c (rfl | rfl) <;> decide
    rw [hslash hsep] at hsx
    rw [hslash hsep'] at hsy
    show formatInstrument uni x "kraken" = formatInstrument uni y "kraken"
    rw [← String.toList_inj, hsx, hsy]
  · have hdrop : ∀ {c : Char}, c = '/' ∨ c = '-' →
        uni.isAlphanumeric (exchangeChar "bitstamp" c) = false := by
      rintro c (rfl | rfl) <;> exact (huni.isAlphanumeric _ (by decide)).trans (by decide)
    show CliArgs.instrumentToChannel uni _ = CliArgs.instrumentToChannel uni _
    rw [CliArgs.instrumentToChannel, CliArgs.instrumentToChannel, hsx, hsy]
    simp [hdrop hsep, hdrop hsep']

/-- OKX keeps the separator. -/
theorem formatInstrument_okx_ne (huni : uni.OnAscii) (hb : IsPlain base) (ht : IsPlain target)
    (hx : x.toList = base.toList ++ '/' :: target.toList)
    (hy : y.toList = base.toList ++ '-' :: target.toList) :
    formatInstrument uni x "okx" ≠ formatInstrument uni y "okx" := by
  intro h
  rw [← String.toList_inj, formatInstrument_pair huni hb.ascii ht.ascii (Or.inl rfl) hx,
    formatInstrument_pair huni hb.ascii ht.ascii (Or.inr rfl) hy] at h
  simp [exchangeChar] at h

end Spelling

/-- **When the spelling of a pair does not matter.** Every spelling of a pair of plain names gives
one subscription if and only if the exchange is not OKX or the table resolves the pair. -/
theorem subscription_spelling_iff (uni : Unicode) (huni : uni.OnAscii) (aliases : AliasTable)
    (exchange : String) (hexchange : exchange ∈ ["okx", "kraken", "bitstamp"])
    (base target : String) (hb : IsPlain base) (ht : IsPlain target) :
    (∀ x y, Spells base target x → Spells base target y →
      subscription uni aliases exchange x = subscription uni aliases exchange y) ↔
      (exchange = "okx" → Resolvable uni aliases exchange base target) := by
  have hresolve : ∀ x, Spells base target x → (resolveIn aliases uni x exchange).1
      = (quoteOf uni aliases exchange base target).elim (formatInstrument uni x exchange)
          fun quote => formatInstrument uni (uni.toUppercase base ++ "-" ++ quote) exchange :=
    fun x hx => resolveIn_of_spells huni hb ht hexchange hx
  rw [resolvable_iff huni ht]
  cases hquote : quoteOf uni aliases exchange base target with
  | some quote =>
    refine iff_of_true (fun x y hx hy => ?_) fun _ => rfl
    simp only [subscription, hresolve x hx, hresolve y hy, hquote, Option.elim_some]
  | none =>
    simp only [Option.isSome_none, Bool.false_eq_true, imp_false]
    constructor
    · rintro h rfl
      have hself : ∀ s : String, eqIgnoreAsciiCase s s = true := fun s => by
        rw [eqIgnoreAsciiCase_iff]
      have hslash : Spells base target (String.ofList (base.toList ++ '/' :: target.toList)) :=
        ⟨base, target, '/', hself _, hself _, Or.inl rfl, String.toList_ofList⟩
      have hdash : Spells base target (String.ofList (base.toList ++ '-' :: target.toList)) :=
        ⟨base, target, '-', hself _, hself _, Or.inr rfl, String.toList_ofList⟩
      have hsame := h _ _ hslash hdash
      simp only [subscription, hresolve _ hslash, hresolve _ hdash, hquote,
        Option.elim_none] at hsame
      exact formatInstrument_okx_ne huni hb ht String.toList_ofList String.toList_ofList hsame
    · intro hokx x y hx hy
      simp only [subscription, hresolve x hx, hresolve y hy, hquote, Option.elim_none]
      refine subscription_raw huni hb ht ?_ hx hy
      simp only [List.mem_cons, List.not_mem_nil, or_false] at hexchange
      exact hexchange.resolve_left hokx

theorem subscription_spelling_iff_ltcGbp :
    (∀ x y, Spells "LTC" "GBP" x → Spells "LTC" "GBP" y →
      subscription .ascii coinAliases "kraken" x = subscription .ascii coinAliases "kraken" y) ↔
      (("kraken" : String) = "okx" → Resolvable .ascii coinAliases "kraken" "LTC" "GBP") :=
  subscription_spelling_iff .ascii Unicode.onAscii_ascii coinAliases "kraken" (by simp) "LTC" "GBP"
    ⟨by decide, by simp⟩ ⟨by decide, by simp⟩

/-- OKX has no alias for LTC in pounds, and is asked for `LTC/GBP` and for `LTC-GBP`. -/
theorem subscription_depends_on_separator :
    ¬ ∀ (uni : Unicode), uni.OnAscii → ∀ (aliases : AliasTable) (exchange : String),
      exchange ∈ ["okx", "kraken", "bitstamp"] → ∀ base target, IsPlain base → IsPlain target →
      ∀ x y, Spells base target x → Spells base target y →
        subscription uni aliases exchange x = subscription uni aliases exchange y := by
  intro h
  have hslash : Spells "LTC" "GBP" "LTC/GBP" :=
    ⟨"LTC", "GBP", '/', by decide, by decide, Or.inl rfl, by decide⟩
  have hdash : Spells "LTC" "GBP" "LTC-GBP" :=
    ⟨"LTC", "GBP", '-', by decide, by decide, Or.inr rfl, by decide⟩
  have hsame := h .ascii Unicode.onAscii_ascii coinAliases "okx" (by simp) "LTC" "GBP"
    ⟨by decide, by simp⟩ ⟨by decide, by simp⟩ _ _ hslash hdash
  exact absurd hsame (by decide)

end Cryptomeria
