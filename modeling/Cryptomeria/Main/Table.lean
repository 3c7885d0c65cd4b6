import Cryptomeria.Main.Aliases

/-!
# The instrument table

`print_instrument_table` shows, for every pair of the alias table, the symbol on each exchange.
It computes the symbols on its own: bases are compared after `XBT` and `XDG` have been renamed,
and a pair that is not found is written with a dash. `tableColumn_val` says what its loops come to.
-/

set_option autoImplicit false

namespace Cryptomeria

def normalizeBase : String → String
  | "XBT" => "BTC"
  | "XDG" => "DOGE"
  | base => base

/-- `(exchange, base, target)` -/
abbrev InstrumentEntry := String × String × String

/-- The entries of each pair, in the order of the table. -/
abbrev Pairs := Std.ExtTreeMap (String × String) (List InstrumentEntry)
  (compareLex (compareOn Prod.fst) (compareOn Prod.snd))

def instrumentPairs (aliases : AliasTable) : Pairs :=
  aliases.foldl (fun pairs (base, target, exchange) =>
    let key := (normalizeBase base, target)
    pairs.insert key (pairs.getD key [] ++ [(exchange, base, target)])) ∅

/-- The symbol and the note of one exchange. -/
structure Column where
  val : String := "not supported"
  note : String := ""
deriving DecidableEq

/-- The notes of OKX do not name the base. -/
def aliasNote (exchange origBase baseNorm note : String) : String :=
  if exchange = "kraken" ∨ exchange = "bitstamp" then
    let text := exchange ++ " uses " ++ origBase ++ " for " ++ baseNorm
    if note = "" then text else note ++ "; " ++ text
  else note

/-- The loop over the entries of a pair, as it changes one column. -/
def entryColumn (uni : Unicode) (baseNorm exchange : String) (entries : List InstrumentEntry) :
    Column :=
  entries.foldl (fun col (ex, origBase, origTarget) =>
    if ex = exchange then
      { val := formatInstrument uni (origBase ++ "-" ++ origTarget) ex
        note := if origBase ≠ baseNorm then aliasNote ex origBase baseNorm col.note else col.note }
    else col) {}

/-- The variables of the loop of `check_fallback`. -/
structure AliasSearch where
  val : String
  hasExactMatch : Bool := false
  availableTargets : List String := []

def AliasSearch.visit (uni : Unicode) (baseNorm exchange desiredTarget : String)
    (self : AliasSearch) : String × String × String → AliasSearch
  | (ab, tgt, ae) =>
    if ae = exchange ∧ normalizeBase ab = baseNorm then
      { val := if eqIgnoreAsciiCase tgt desiredTarget then
          formatInstrument uni (ab ++ "-" ++ tgt) exchange else self.val
        hasExactMatch := self.hasExactMatch || eqIgnoreAsciiCase tgt desiredTarget
        availableTargets := self.availableTargets ++ [tgt] }
    else self

def checkFallback (uni : Unicode) (aliases : AliasTable) (baseNorm exchange desiredTarget : String)
    (col : Column) : Column :=
  let search := aliases.foldl (AliasSearch.visit uni baseNorm exchange desiredTarget)
    { val := col.val }
  if search.hasExactMatch then { col with val := search.val }
  else match findFallbackTarget uni desiredTarget search.availableTargets with
    | some fallback =>
      { val := formatInstrument uni (baseNorm ++ "-" ++ fallback) exchange
        note := desiredTarget ++ "->" ++ fallback ++ "&" }
    | none =>
      if search.val = "not supported" then
        { val := formatInstrument uni (baseNorm ++ "-" ++ desiredTarget) exchange
          note := "raw format (not in aliases)" }
      else { col with val := search.val }

/-- `note.pop()` if it ends with `&`. -/
def popAmpersand (note : String) : String :=
  if note.toList.getLast? = some '&' then String.ofList note.toList.dropLast else note

structure InstrumentRow where
  instrument : String
  okx : String
  kraken : String
  bitstamp : String
  notes : String
deriving DecidableEq

/-- One column of a row, before the notes are put together. -/
def tableColumn (uni : Unicode) (aliases : AliasTable) (key : String × String)
    (entries : List InstrumentEntry) (exchange : String) : Column :=
  checkFallback uni aliases key.1 exchange key.2 (entryColumn uni key.1 exchange entries)

def tableRow (uni : Unicode) (aliases : AliasTable) (key : String × String)
    (entries : List InstrumentEntry) : InstrumentRow :=
  let okx := tableColumn uni aliases key entries "okx"
  let kraken := tableColumn uni aliases key entries "kraken"
  let bitstamp := tableColumn uni aliases key entries "bitstamp"
  let allNotes := [("OKX: ", okx.note), ("KRAKEN: ", kraken.note), ("BITSTAMP: ", bitstamp.note)]
    |>.map (fun (name, note) => (name, popAmpersand note))
    |>.filter (fun (_, note) => note != "")
  { instrument := key.1 ++ "/" ++ key.2
    okx := okx.val, kraken := kraken.val, bitstamp := bitstamp.val
    notes := " | ".intercalate (allNotes.map fun (name, note) => name ++ note) }

/-- The rows that `print_instrument_table` prints below the header. -/
def instrumentTable (uni : Unicode) (aliases : AliasTable) : List InstrumentRow :=
  (instrumentPairs aliases).toList.map fun (key, entries) => tableRow uni aliases key entries

/-- The symbol in the column of an exchange. -/
def InstrumentRow.symbol (row : InstrumentRow) (exchange : String) : String :=
  if exchange = "okx" then row.okx
  else if exchange = "kraken" then row.kraken
  else row.bitstamp

example : (instrumentTable .ascii coinAliases).find? (fun row => row.instrument = "BTC/USDT")
    = some { instrument := "BTC/USDT", okx := "BTC-USDT", kraken := "BTC/USDC"
             bitstamp := "btc-usd", notes := "KRAKEN: USDT->USDC | BITSTAMP: USDT->USD" } := by
  decide

/-! ## What the loops compute -/

/-- The entries of a pair: what the table lists under its key. -/
def entriesOf (aliases : AliasTable) (key : String × String) : List InstrumentEntry :=
  (aliases.filter fun entry => (normalizeBase entry.1, entry.2.1) = key).map fun entry =>
    (entry.2.2, entry.1, entry.2.1)

theorem compareKey_eq_iff {k k' : String × String} :
    compareLex (compareOn Prod.fst) (compareOn Prod.snd) k k' = .eq ↔ k = k' := by
  rw [compareLex, Ordering.then_eq_eq, compareOn, compareOn, compare_eq_iff_eq, compare_eq_iff_eq,
    Prod.ext_iff]

instance instLawfulEqCmpRow : Std.LawfulEqCmp (α := String × String)
    (compareLex (compareOn Prod.fst) (compareOn Prod.snd)) := ⟨compareKey_eq_iff.mp⟩

theorem getD_instrumentPairs (aliases : AliasTable) (key : String × String) :
    (instrumentPairs aliases).getD key [] = entriesOf aliases key := by
  unfold instrumentPairs entriesOf
  induction aliases using List.reverseRecOn with
  | nil => simp
  | append_singleton aliases entry ih =>
    rw [List.foldl_concat, Std.ExtTreeMap.getD_insert, List.filter_append, List.map_append, ← ih]
    by_cases hkey : (normalizeBase entry.1, entry.2.1) = key
    · rw [if_pos (compareKey_eq_iff.mpr hkey)]
      simp [hkey]
    · rw [if_neg (mt compareKey_eq_iff.mp hkey)]
      simp [hkey]

/-- The table has one row for each pair, with what the table lists under it. -/
theorem instrumentTable_eq_map_keys (uni : Unicode) (aliases : AliasTable) :
    instrumentTable uni aliases
      = (instrumentPairs aliases).keys.map fun key =>
          tableRow uni aliases key (entriesOf aliases key) := by
  rw [instrumentTable, ← Std.ExtTreeMap.map_fst_toList_eq_keys, List.map_map]
  refine List.map_congr_left fun pair hpair => ?_
  have hentries := Std.ExtTreeMap.mem_toList_iff_getElem?_eq_some.mp hpair
  rw [Function.comp_apply, ← getD_instrumentPairs, Std.ExtTreeMap.getD_eq_getD_getElem?, hentries,
    Option.getD_some]

theorem exists_of_mem_instrumentPairs {aliases : AliasTable} {key : String × String}
    (h : key ∈ instrumentPairs aliases) :
    ∃ entry ∈ aliases, (normalizeBase entry.1, entry.2.1) = key := by
  unfold instrumentPairs at h
  induction aliases using List.reverseRecOn with
  | nil => simp at h
  | append_singleton aliases entry ih =>
    rw [List.foldl_concat, Std.ExtTreeMap.mem_insert, compareKey_eq_iff] at h
    rcases h with hkey | h
    · exact ⟨entry, by simp, hkey⟩
    · obtain ⟨entry', hmem, hkey⟩ := ih h
      exact ⟨entry', List.mem_append_left _ hmem, hkey⟩

/-- The entries that the table counts as the pair on this exchange. -/
def exactAliases (aliases : AliasTable) (exchange base target : String) : AliasTable :=
  aliases.filter fun entry =>
    entry.2.2 = exchange ∧ normalizeBase entry.1 = base ∧ eqIgnoreAsciiCase entry.2.1 target = true

/-- The targets of a base, as the table compares bases. -/
def tableTargets (aliases : AliasTable) (exchange base : String) : List String :=
  (aliases.filter fun entry => entry.2.2 = exchange ∧ normalizeBase entry.1 = base).map
    fun entry => entry.2.1

theorem foldl_visit (uni : Unicode) (aliases : AliasTable) (base exchange target val : String) :
    aliases.foldl (AliasSearch.visit uni base exchange target) { val }
      = { val := (exactAliases aliases exchange base target).getLast?.elim val fun entry =>
            formatInstrument uni (entry.1 ++ "-" ++ entry.2.1) exchange
          hasExactMatch := lists (tableTargets aliases exchange base) target
          availableTargets := tableTargets aliases exchange base } := by
  unfold exactAliases tableTargets
  induction aliases using List.reverseRecOn with
  | nil => rfl
  | append_singleton aliases entry ih =>
    rw [List.foldl_concat, ih, AliasSearch.visit]
    by_cases hown : entry.2.2 = exchange ∧ normalizeBase entry.1 = base
    · rw [if_pos hown]
      cases heq : eqIgnoreAsciiCase entry.2.1 target <;> simp [hown, heq, lists]
    · rw [if_neg hown]
      have hno : ¬(entry.2.2 = exchange ∧ normalizeBase entry.1 = base ∧
          eqIgnoreAsciiCase entry.2.1 target = true) := fun h => hown ⟨h.1, h.2.1⟩
      simp [hown, hno]

theorem exactAliases_eq_nil {aliases : AliasTable} {exchange base target : String} :
    exactAliases aliases exchange base target = [] ↔
      lists (tableTargets aliases exchange base) target = false := by
  rw [exactAliases, List.filter_eq_nil_iff, lists, List.any_eq_false]
  simp only [tableTargets, List.mem_map, List.mem_filter, decide_eq_true_eq]
  constructor
  · rintro h t ⟨entry, ⟨hmem, hex, hbase⟩, rfl⟩ heq
    exact h entry hmem ⟨hex, hbase, heq⟩
  · rintro h entry hmem ⟨hex, hbase, heq⟩
    exact h entry.2.1 ⟨entry, ⟨hmem, hex, hbase⟩, rfl⟩ heq

/-- The loop over the entries leaves a column alone if none is for its exchange. -/
theorem entryColumn_of_forall (uni : Unicode) {base exchange : String}
    {entries : List InstrumentEntry} (h : ∀ entry ∈ entries, entry.1 ≠ exchange) :
    entryColumn uni base exchange entries = {} := by
  unfold entryColumn
  induction entries using List.reverseRecOn with
  | nil => rfl
  | append_singleton entries entry ih =>
    rw [List.foldl_concat, ih fun e he => h e (List.mem_append_left _ he)]
    simp [h entry (by simp)]

/-- **The symbol of a column**: the last entry that counts as the pair, else the base with the
fallback, else the base with the target. -/
theorem tableColumn_val (uni : Unicode) (aliases : AliasTable) (base target exchange : String) :
    (tableColumn uni aliases (base, target) (entriesOf aliases (base, target)) exchange).val
      = (exactAliases aliases exchange base target).getLast?.elim
          (formatInstrument uni (base ++ "-" ++
            (findFallbackTarget uni target (tableTargets aliases exchange base)).getD target)
            exchange)
          fun entry => formatInstrument uni (entry.1 ++ "-" ++ entry.2.1) exchange := by
  simp only [tableColumn, checkFallback, foldl_visit]
  cases hexact : lists (tableTargets aliases exchange base) target with
  | true =>
    cases hlast : (exactAliases aliases exchange base target).getLast? with
    | none =>
      rw [List.getLast?_eq_none_iff, exactAliases_eq_nil, hexact] at hlast
      simp at hlast
    | some entry => rfl
  | false =>
    have hnil := exactAliases_eq_nil.mpr hexact
    -- an entry of this row for the exchange would be an exact match
    have hcol : entryColumn uni base exchange (entriesOf aliases (base, target)) = {} := by
      refine entryColumn_of_forall uni fun e he hex => ?_
      obtain ⟨entry, hentry, rfl⟩ := List.mem_map.mp he
      obtain ⟨hmem, hkey⟩ := List.mem_filter.mp hentry
      simp only [decide_eq_true_eq, Prod.mk.injEq] at hkey
      refine List.filter_eq_nil_iff.mp hnil entry hmem ?_
      simp only [decide_eq_true_eq]
      refine ⟨hex, hkey.1, ?_⟩
      rw [hkey.2, eqIgnoreAsciiCase_iff]
    rw [hcol, hnil]
    cases findFallbackTarget uni target (tableTargets aliases exchange base) <;> rfl

end Cryptomeria
