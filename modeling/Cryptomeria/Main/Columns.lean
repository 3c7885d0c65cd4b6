import Cryptomeria.Main.Table

/-!
# The table and the resolver

The instrument table shows a symbol for each row and exchange, and the resolver answers one for the
name of the row. The table compares bases after `XBT` and `XDG` have been renamed, and writes a
pair that is not found with a dash. The resolver compares bases as they stand, and passes a name
that it cannot resolve through, with its slash. `instrumentTable_agrees_iff` says for which rows
and exchanges the two come to the same symbol.
-/

set_option autoImplicit false

namespace Cryptomeria

/-! ## The target that is chosen -/

/-- The target itself if it is listed, else the first dollar that is listed if it is a dollar. -/
def chosen (available : List String) (target : String) : Option String :=
  if lists available target then some (asciiUpper target)
  else if asciiUpper target ∈ dollars then dollars.find? (lists available)
  else none

/-- The targets of a base, as the resolver compares bases. -/
def literalTargets (aliases : AliasTable) (exchange base : String) : List String :=
  (aliases.filter fun entry =>
    entry.2.2 = exchange ∧ eqIgnoreAsciiCase entry.1 base = true).map fun entry => entry.2.1

/-- What the resolver finds for `base/target`. A name with a second slash is not looked up. -/
def literalChoice (aliases : AliasTable) (exchange base target : String) : Option String :=
  if '/' ∈ base.toList ∨ '/' ∈ target.toList then none
  else chosen (literalTargets aliases exchange base) target

/-- The names of the table are ASCII. -/
def AsciiTable (aliases : AliasTable) : Prop :=
  ∀ entry ∈ aliases, IsAscii entry.1 ∧ IsAscii entry.2.1

theorem chosen_cases {available : List String} {target quote : String}
    (h : chosen available target = some quote) :
    quote = asciiUpper target ∨ asciiUpper target ∈ dollars ∧ quote ∈ dollars := by
  rw [chosen] at h
  split at h
  · exact Or.inl (Option.some.inj h).symm
  · split at h
    · rename_i hdollar
      exact Or.inr ⟨hdollar, List.mem_of_find?_eq_some h⟩
    · simp at h

section Chosen

variable {uni : Unicode} {aliases : AliasTable} {exchange base target : String}

/-- A fallback is what is chosen for a target that is not listed. -/
theorem findFallbackTarget_eq_chosen (huni : uni.OnAscii) (htarget : IsAscii target)
    {available : List String} (h : lists available target = false) :
    findFallbackTarget uni target available = chosen available target := by
  rw [findFallbackTarget_eq huni, chosen, h, huni.toUppercase target htarget]
  rfl

/-- What the resolver finds is what is chosen, up to letter case. -/
theorem map_quoteIn (huni : uni.OnAscii) (htarget : IsAscii target) {available : List String}
    (havailable : ∀ t ∈ available, IsAscii t) :
    (quoteIn uni available (uni.toUppercase target)).map asciiUpper = chosen available target := by
  have hup : uni.toUppercase target = asciiUpper target := huni.toUppercase target htarget
  have hself : asciiUpper (asciiUpper target) = asciiUpper target := asciiUpper_asciiUpper target
  rw [quoteIn, hup]
  cases hfind : available.find? fun t => uni.toUppercase t = asciiUpper target with
  | some t =>
    have hmem := List.mem_of_find?_eq_some hfind
    have heq := List.find?_some hfind
    rw [decide_eq_true_eq, huni.toUppercase t (havailable t hmem)] at heq
    have hlists : lists available target = true :=
      List.any_eq_true.mpr ⟨t, hmem, eqIgnoreAsciiCase_iff.mpr heq⟩
    rw [chosen, hlists, Option.some_or, Option.map_some, heq]
    rfl
  | none =>
    have hlists : lists available target = false := by
      rw [lists, List.any_eq_false]
      intro t ht heq
      refine List.find?_eq_none.mp hfind t ht ?_
      rw [decide_eq_true_eq, huni.toUppercase t (havailable t ht)]
      exact eqIgnoreAsciiCase_iff.mp heq
    have hlists' : lists available (asciiUpper target) = false := by
      rw [lists_congr hself, hlists]
    have hchosen : chosen available (asciiUpper target) = chosen available target := by
      rw [chosen, chosen, hlists, hlists', hself]
    rw [Option.none_or, findFallbackTarget_eq_chosen huni (isAscii_asciiUpper htarget) hlists',
      hchosen]
    cases hquote : chosen available target with
    | none => rfl
    | some quote =>
      rcases chosen_cases hquote with rfl | ⟨-, hdollar⟩
      · rw [Option.map_some, hself]
      · rw [Option.map_some, asciiUpper_of_mem_dollars hdollar]

theorem availableTargets_eq (huni : uni.OnAscii) (haliases : AsciiTable aliases)
    (hbase : IsAscii base) :
    availableTargets uni aliases exchange (uni.toUppercase base)
      = literalTargets aliases exchange base := by
  rw [availableTargets, literalTargets, ← List.filterMap_eq_map, List.filterMap_filter]
  refine List.filterMap_congr fun entry hentry => ?_
  have hup : uni.toUppercase entry.1 = uni.toUppercase base ↔
      eqIgnoreAsciiCase entry.1 base = true := by
    rw [huni.toUppercase _ (haliases entry hentry).1, huni.toUppercase base hbase,
      eqIgnoreAsciiCase_iff]
  simp only [hup, decide_eq_true_eq, Function.comp_apply]

theorem isAscii_of_mem_literalTargets (haliases : AsciiTable aliases) :
    ∀ t ∈ literalTargets aliases exchange base, IsAscii t := by
  intro t ht
  obtain ⟨entry, hentry, rfl⟩ := List.mem_map.mp ht
  exact (haliases entry (List.mem_of_mem_filter hentry)).2

end Chosen

/-! ## Agreement -/

/-- When a column shows what the resolver answers. -/
structure TableAgrees (aliases : AliasTable) (exchange base target : String) : Prop where
  /-- What follows an `@` would be an exchange to the resolver. -/
  marks : '@' ∉ base.toList ∧ '@' ∉ target.toList
  /-- The entry that is shown has the base under its own name. -/
  ownName : ∀ entry ∈ (exactAliases aliases exchange base target).getLast?, entry.1 = base
  /-- Both come to the same target. -/
  sameTarget : (chosen (tableTargets aliases exchange base) target).getD (asciiUpper target)
    = (literalChoice aliases exchange base target).getD (asciiUpper target)
  /-- A name that is passed through keeps its slash. -/
  slash : literalChoice aliases exchange base target = none → exchange = "kraken"

/-- The base that the column writes. -/
def shownBase (aliases : AliasTable) (exchange base target : String) : String :=
  (exactAliases aliases exchange base target).getLast?.elim base Prod.fst

section Agreement

variable {uni : Unicode} {aliases : AliasTable} {exchange base target : String}

theorem normalizeBase_eq_iff {x : String} :
    normalizeBase x = base ↔ x = "XBT" ∧ base = "BTC" ∨ x = "XDG" ∧ base = "DOGE" ∨
      x ≠ "XBT" ∧ x ≠ "XDG" ∧ x = base := by
  unfold normalizeBase
  split
  · simp [eq_comm]
  · simp [eq_comm]
  · rename_i hxbt hxdg
    have hne : x ≠ "XBT" ∧ x ≠ "XDG" := ⟨hxbt, hxdg⟩
    simp [hne]

theorem shownBase_cases :
    shownBase aliases exchange base target = base ∨
      shownBase aliases exchange base target = "XBT" ∧ base = "BTC" ∨
      shownBase aliases exchange base target = "XDG" ∧ base = "DOGE" := by
  rw [shownBase]
  cases hlast : (exactAliases aliases exchange base target).getLast? with
  | none => exact Or.inl rfl
  | some entry =>
    have hentry := (List.mem_filter.mp (List.mem_of_getLast? hlast)).2
    rw [decide_eq_true_eq, normalizeBase_eq_iff] at hentry
    rcases hentry.2.1 with h | h | h
    · exact Or.inr (Or.inl h)
    · exact Or.inr (Or.inr h)
    · exact Or.inl h.2.2

theorem shownBase_eq_iff :
    shownBase aliases exchange base target = base ↔
      ∀ entry ∈ (exactAliases aliases exchange base target).getLast?, entry.1 = base := by
  rw [shownBase]
  cases (exactAliases aliases exchange base target).getLast? <;> simp

theorem isAscii_shownBase (hbase : IsAscii base) :
    IsAscii (shownBase aliases exchange base target) := by
  rcases @shownBase_cases aliases exchange base target with h | h | h
  · rwa [h]
  · rw [h.1]; decide
  · rw [h.1]; decide

/-- **The characters of a column**: the base that is shown and the target that is chosen. -/
theorem tableColumn_toList (huni : uni.OnAscii) (haliases : AsciiTable aliases)
    (hbase : IsAscii base) (htarget : IsAscii target) :
    (tableColumn uni aliases (base, target) (entriesOf aliases (base, target)) exchange).val.toList
      = (asciiUpper (shownBase aliases exchange base target)).toList.map (exchangeChar exchange)
        ++ exchangeChar exchange '-' ::
          ((chosen (tableTargets aliases exchange base) target).getD
            (asciiUpper target)).toList.map (exchangeChar exchange) := by
  have hshown := @isAscii_shownBase aliases exchange base target hbase
  rw [tableColumn_val, shownBase] at *
  cases hlast : (exactAliases aliases exchange base target).getLast? with
  | some entry =>
    rw [hlast] at hshown
    replace hshown : IsAscii entry.1 := hshown
    have hmem := List.mem_of_getLast? hlast
    have hexact : lists (tableTargets aliases exchange base) target = true := by
      rw [← Bool.not_eq_false, ← exactAliases_eq_nil]
      exact List.ne_nil_of_mem hmem
    obtain ⟨hentry, hprops⟩ := List.mem_filter.mp hmem
    rw [decide_eq_true_eq, eqIgnoreAsciiCase_iff] at hprops
    rw [chosen, hexact, Option.elim_some, Option.elim_some,
      formatInstrument_dash huni hshown (haliases entry hentry).2, hprops.2.2]
    rfl
  | none =>
    have hexact : lists (tableTargets aliases exchange base) target = false := by
      rw [← exactAliases_eq_nil, ← List.getLast?_eq_none_iff, hlast]
    rw [findFallbackTarget_eq_chosen huni htarget hexact, Option.elim_none, Option.elim_none]
    cases hchosen : chosen (tableTargets aliases exchange base) target with
    | none =>
      rw [Option.getD_none, Option.getD_none,
        formatInstrument_dash huni hbase htarget]
    | some quote =>
      have hdollar : quote ∈ dollars := by
        rw [chosen, hexact] at hchosen
        simp only [Bool.false_eq_true, if_false, Option.ite_none_right_eq_some] at hchosen
        exact List.mem_of_find?_eq_some hchosen.2
      rw [Option.getD_some, Option.getD_some, formatInstrument_dash huni hbase
        (isAscii_of_mem_dollars hdollar), asciiUpper_of_mem_dollars hdollar]

/-- What stands for the target is ASCII too. -/
theorem isAscii_of_quoteIn (huni : uni.OnAscii) (htarget : IsAscii target)
    {available : List String} (havailable : ∀ t ∈ available, IsAscii t) {quote : String}
    (h : quoteIn uni available (uni.toUppercase target) = some quote) : IsAscii quote := by
  have hchosen := map_quoteIn huni htarget havailable
  rw [h, Option.map_some] at hchosen
  rcases chosen_cases hchosen.symm with heq | ⟨-, hdollar⟩
  · exact isAscii_of_eqIgnoreAsciiCase (eqIgnoreAsciiCase_iff.mpr heq) htarget
  · refine isAscii_of_eqIgnoreAsciiCase (t := asciiUpper quote) ?_ (isAscii_of_mem_dollars hdollar)
    rw [eqIgnoreAsciiCase_iff, asciiUpper_asciiUpper]

/-- **The characters of what the resolver answers** for a name without `@`. -/
theorem resolveIn_toList (huni : uni.OnAscii) (haliases : AsciiTable aliases)
    (hbase : IsAscii base) (htarget : IsAscii target)
    (hat : '@' ∉ base.toList ∧ '@' ∉ target.toList)
    (hexchange : uni.toLowercase exchange = exchange) :
    (resolveIn aliases uni (base ++ "/" ++ target) exchange).1.toList
      = (asciiUpper base).toList.map (exchangeChar exchange)
        ++ exchangeChar exchange
            (if (literalChoice aliases exchange base target).isSome then '-' else '/') ::
          ((literalChoice aliases exchange base target).getD
            (asciiUpper target)).toList.map (exchangeChar exchange) := by
  have hx : (base ++ "/" ++ target).toList = base.toList ++ '/' :: target.toList := by simp
  have hat' : '@' ∉ (base ++ "/" ++ target).toList := by
    rw [hx, List.mem_append, List.mem_cons]
    simp [hat]
  have hraw := @formatInstrument_pair uni exchange base target _ '/' huni hbase htarget
    (Or.inl rfl) hx
  by_cases hslash : '/' ∈ base.toList ∨ '/' ∈ target.toList
  · have hcount : 2 ≤ (base ++ "/" ++ target).toList.count '/' := by
      rw [hx, List.count_append, List.count_cons_self]
      rcases hslash with h | h <;> have hpos := List.count_pos_iff.mpr h <;> omega
    rw [resolveIn_of_slashes hcount hat' hexchange, literalChoice, if_pos hslash, hraw]
    rfl
  · rw [not_or] at hslash
    have hlit : ∀ t ∈ literalTargets aliases exchange base, IsAscii t :=
      isAscii_of_mem_literalTargets haliases
    have hchoice : (quoteIn uni (literalTargets aliases exchange base)
        (uni.toUppercase target)).map asciiUpper = literalChoice aliases exchange base target := by
      rw [literalChoice, if_neg (by simpa using hslash), map_quoteIn huni htarget hlit]
    rw [resolveIn_symbol hx (Or.inl rfl) hslash.1 hslash.2 hat' hexchange,
      availableTargets_eq huni haliases hbase, ← hchoice]
    cases hquote : quoteIn uni (literalTargets aliases exchange base)
      (uni.toUppercase target) with
    | none => exact hraw
    | some quote =>
      have hup : uni.toUppercase base = asciiUpper base := huni.toUppercase base hbase
      rw [Option.elim_some, hup, formatInstrument_dash huni (isAscii_asciiUpper hbase)
        (isAscii_of_quoteIn huni htarget hlit hquote), asciiUpper_asciiUpper]
      rfl

/-! ### Names with an `@` -/

theorem exchangeChar_eq_at {c : Char} : exchangeChar exchange c = '@' ↔ c = '@' := by
  have hlower : c.toLower = '@' ↔ c = '@' := by
    constructor
    · intro h
      by_cases hu : c.isUpper
      · have halpha := Char.isLower_toLower_eq_isAlpha c
        rw [h, Char.isAlpha, hu, Bool.true_or] at halpha
        simp at halpha
      · rwa [Char.toLower_eq_of_not_isUpper hu] at h
    · rintro rfl
      decide
  unfold exchangeChar
  split
  · by_cases hc : c = '-' <;> simp [hc]
  · split
    · exact hlower
    · rfl

theorem count_at_map {f : Char → Char} (hf : ∀ c, f c = '@' ↔ c = '@') (cs : List Char) :
    (cs.map f).count '@' = cs.count '@' := by
  rw [List.count_eq_countP, List.count_eq_countP, List.countP_map]
  refine List.countP_congr fun c _ => ?_
  simp [hf]

theorem count_at_asciiUpper (s : String) :
    (asciiUpper s).toList.count '@' = s.toList.count '@' := by
  rw [toList_asciiUpper]
  exact count_at_map (fun c => toUpper_eq_iff (by decide)) s.toList

theorem count_at_formatInstrument (huni : uni.OnAscii) {x : String} (hx : IsAscii x) :
    (formatInstrument uni x exchange).toList.count '@' = x.toList.count '@' := by
  rw [formatInstrument_toList huni hx]
  exact count_at_map (fun c => exchangeChar_eq_at.trans (toUpper_eq_iff (by decide))) _

theorem count_at_of_mem_dollars {d : String} (h : d ∈ dollars) : d.toList.count '@' = 0 := by
  simp only [dollars, List.mem_cons, List.not_mem_nil, or_false] at h
  rcases h with rfl | rfl | rfl <;> decide

/-- What is chosen for a target has as many `@` as the target. -/
theorem count_at_of_chosen {available : List String} {quote : String}
    (h : chosen available target = some quote) :
    quote.toList.count '@' = target.toList.count '@' := by
  rw [← count_at_asciiUpper target]
  rcases chosen_cases h with rfl | ⟨hupper, hdollar⟩
  · rfl
  · rw [count_at_of_mem_dollars hdollar, count_at_of_mem_dollars hupper]

theorem count_at_of_quoteIn (huni : uni.OnAscii) (htarget : IsAscii target)
    {available : List String} (havailable : ∀ t ∈ available, IsAscii t) {quote : String}
    (h : quoteIn uni available (uni.toUppercase target) = some quote) :
    quote.toList.count '@' = target.toList.count '@' := by
  have hchosen := map_quoteIn huni htarget havailable
  rw [h, Option.map_some] at hchosen
  rw [← count_at_asciiUpper quote]
  exact count_at_of_chosen hchosen.symm

theorem count_at_column (huni : uni.OnAscii) (haliases : AsciiTable aliases)
    (hbase : IsAscii base) (htarget : IsAscii target) :
    (tableColumn uni aliases (base, target)
      (entriesOf aliases (base, target)) exchange).val.toList.count '@'
      = base.toList.count '@' + target.toList.count '@' := by
  have hshown : (shownBase aliases exchange base target).toList.count '@'
      = base.toList.count '@' := by
    rcases @shownBase_cases aliases exchange base target with h | ⟨h, rfl⟩ | ⟨h, rfl⟩
    · rw [h]
    · rw [h]; decide
    · rw [h]; decide
  have hdash : exchangeChar exchange '-' ≠ '@' := by
    rw [Ne, exchangeChar_eq_at]
    decide
  have hquote : ((chosen (tableTargets aliases exchange base) target).getD
      (asciiUpper target)).toList.count '@' = target.toList.count '@' := by
    cases h : chosen (tableTargets aliases exchange base) target with
    | none => exact count_at_asciiUpper target
    | some quote => exact count_at_of_chosen h
  rw [tableColumn_toList huni haliases hbase htarget, List.count_append,
    List.count_cons_of_ne hdash, count_at_map fun c => exchangeChar_eq_at,
    count_at_map fun c => exchangeChar_eq_at, count_at_asciiUpper, hshown, hquote]

/-- The resolver takes the last `@` for the start of an exchange. -/
theorem count_at_resolveIn (huni : uni.OnAscii) (haliases : AsciiTable aliases) {x : String}
    (hx : IsAscii x) (hat : '@' ∈ x.toList) :
    (resolveIn aliases uni x exchange).1.toList.count '@' < x.toList.count '@' := by
  obtain ⟨symbol, ex, hsplit, hno⟩ := exists_rsplitAt hat
  have hparse : parseExchangeOverride x = (String.ofList symbol, some (String.ofList ex)) := by
    rw [parseExchangeOverride, hsplit, rsplitAt_append symbol hno]
  have hsymbol : IsAscii (String.ofList symbol) :=
    isAscii_ofList.mpr fun c hc => hx c (by simp [hsplit, hc])
  have hcount : x.toList.count '@' = symbol.count '@' + 1 := by
    rw [hsplit, List.count_append, List.count_cons_self, List.count_eq_zero.mpr hno]
  have hraw : ∀ ex, (formatInstrument uni (String.ofList symbol) ex).toList.count '@'
      ≤ symbol.count '@' := fun ex => by
    rw [count_at_formatInstrument huni hsymbol, String.toList_ofList]
  rw [hcount, Nat.lt_succ_iff]
  simp only [resolveIn, hparse, Option.getD_some, String.toList_ofList]
  generalize hsep : (if '/' ∈ symbol then '/' else '-') = sep
  have hsepAt : sep ≠ '@' := by
    subst hsep
    split <;> decide
  split
  · rename_i b t hparts
    have hjoin := eq_of_splitOn_pair hparts
    rw [isAscii_ofList, hjoin, List.forall_mem_append, List.forall_mem_cons] at hsymbol
    obtain ⟨hb, -, ht⟩ := hsymbol
    rw [← isAscii_ofList] at hb ht
    split
    · rename_i quote hquote
      rw [availableTargets_eq huni haliases hb] at hquote
      have hlit := @isAscii_of_mem_literalTargets aliases
        (uni.toLowercase (String.ofList ex)) (String.ofList b) haliases
      have hascii := isAscii_of_quoteIn huni ht hlit hquote
      have hpair : IsAscii (asciiUpper (String.ofList b) ++ "-" ++ quote) := by
        rw [isAscii_append, isAscii_append]
        exact ⟨⟨isAscii_asciiUpper hb, by decide⟩, hascii⟩
      rw [huni.toUppercase _ hb, count_at_formatInstrument huni hpair, String.toList_append,
        String.toList_append, List.count_append, List.count_append, count_at_asciiUpper,
        count_at_of_quoteIn huni ht hlit hquote, String.toList_ofList, String.toList_ofList, hjoin]
      simp [List.count_append, List.count_cons_of_ne hsepAt]
    · exact hraw _
  · exact hraw _

/-! ### The two symbols -/

/-- What is written after the base: the target, or a dollar in place of a dollar. -/
def StandsFor (target quote : String) : Prop :=
  quote = asciiUpper target ∨ asciiUpper target ∈ dollars ∧ quote ∈ dollars

theorem standsFor_getD {choice : Option String}
    (h : ∀ quote ∈ choice, StandsFor target quote) :
    StandsFor target (choice.getD (asciiUpper target)) := by
  cases choice with
  | none => exact Or.inl rfl
  | some quote => exact h quote rfl

theorem standsFor_literalChoice :
    ∀ quote ∈ literalChoice aliases exchange base target, StandsFor target quote := by
  intro quote hquote
  rw [literalChoice] at hquote
  split at hquote
  · simp at hquote
  · exact chosen_cases hquote

/-- An exchange writes two names of one target alike only if they are the same. -/
theorem StandsFor.eq_of_map (hexchange : exchange ∈ ["okx", "kraken", "bitstamp"])
    {q q' : String} (hq : StandsFor target q) (hq' : StandsFor target q')
    (h : q.toList.map (exchangeChar exchange) = q'.toList.map (exchangeChar exchange)) :
    q = q' := by
  have hinj : ∀ d ∈ dollars, ∀ d' ∈ dollars, d.toList.map (exchangeChar exchange)
      = d'.toList.map (exchangeChar exchange) → d = d' := by
    simp only [List.mem_cons, List.not_mem_nil, or_false] at hexchange
    rcases hexchange with rfl | rfl | rfl <;> decide
  rcases hq with rfl | ⟨htarget, hd⟩
  · rcases hq' with rfl | ⟨htarget, hd'⟩
    · rfl
    · exact hinj _ htarget _ hd' h
  · rcases hq' with rfl | ⟨-, hd'⟩
    · exact hinj _ hd _ htarget h
    · exact hinj _ hd _ hd' h

/-- `XBT` and `XDG` show. -/
theorem shownBase_eq_of_map (hexchange : exchange ∈ ["okx", "kraken", "bitstamp"])
    {cs cs' : List Char}
    (h : (asciiUpper (shownBase aliases exchange base target)).toList.map (exchangeChar exchange)
        ++ cs
      = (asciiUpper base).toList.map (exchangeChar exchange) ++ cs') :
    shownBase aliases exchange base target = base := by
  rcases @shownBase_cases aliases exchange base target with hbase | ⟨hbase, rfl⟩ | ⟨hbase, rfl⟩
  · exact hbase
  all_goals
    -- the first characters differ
    rw [hbase] at h
    simp only [List.mem_cons, List.not_mem_nil, or_false] at hexchange
    rcases hexchange with rfl | rfl | rfl <;> simp [exchangeChar] at h

theorem tableColumn_eq_iff (huni : uni.OnAscii) (haliases : AsciiTable aliases)
    (hexchange : exchange ∈ ["okx", "kraken", "bitstamp"])
    (hbase : IsAscii base) (htarget : IsAscii target) :
    (tableColumn uni aliases (base, target) (entriesOf aliases (base, target)) exchange).val
      = (resolveIn aliases uni (base ++ "/" ++ target) exchange).1
      ↔ TableAgrees aliases exchange base target := by
  by_cases hat : '@' ∉ base.toList ∧ '@' ∉ target.toList
  · have hlower : uni.toLowercase exchange = exchange := by
      simp only [List.mem_cons, List.not_mem_nil, or_false] at hexchange
      rcases hexchange with rfl | rfl | rfl <;>
        exact (huni.toLowercase _ (by decide)).trans (by decide)
    rw [← String.toList_inj, tableColumn_toList huni haliases hbase htarget,
      resolveIn_toList huni haliases hbase htarget hat hlower]
    constructor
    · intro h
      have hshown := shownBase_eq_of_map hexchange h
      rw [hshown, List.append_cancel_left_eq, List.cons.injEq] at h
      obtain ⟨hmark, hquote⟩ := h
      refine ⟨hat, shownBase_eq_iff.mp hshown, ?_, fun hnone => ?_⟩
      · exact (standsFor_getD fun quote h => chosen_cases h).eq_of_map hexchange
          (standsFor_getD standsFor_literalChoice) hquote
      · -- only Kraken writes the dash of the table as the slash of the name
        rw [hnone] at hmark
        simp only [List.mem_cons, List.not_mem_nil, or_false] at hexchange
        rcases hexchange with rfl | rfl | rfl
        · simp [exchangeChar] at hmark
        · rfl
        · simp [exchangeChar] at hmark
    · intro h
      have hmark : exchangeChar exchange '-' = exchangeChar exchange
          (if (literalChoice aliases exchange base target).isSome then '-' else '/') := by
        cases hchoice : literalChoice aliases exchange base target with
        | some quote => rfl
        | none =>
          rw [h.slash hchoice]
          rfl
      rw [shownBase_eq_iff.mpr h.ownName, h.sameTarget, hmark]
  · refine iff_of_false (fun h => ?_) fun h => hat h.marks
    have hx : IsAscii (base ++ "/" ++ target) := by
      rw [isAscii_append, isAscii_append]
      exact ⟨⟨hbase, by decide⟩, htarget⟩
    have hmem : '@' ∈ (base ++ "/" ++ target).toList := by
      simp only [String.toList_append, List.mem_append]
      grind
    have hlt := @count_at_resolveIn uni aliases exchange huni haliases _ hx hmem
    rw [← h, count_at_column huni haliases hbase htarget] at hlt
    simp [List.count_append] at hlt

/-- A pair of the table has ASCII names. -/
theorem isAscii_of_mem_instrumentPairs (haliases : AsciiTable aliases)
    (hpair : (base, target) ∈ instrumentPairs aliases) : IsAscii base ∧ IsAscii target := by
  obtain ⟨entry, hmem, hkey⟩ := exists_of_mem_instrumentPairs hpair
  simp only [Prod.mk.injEq] at hkey
  refine ⟨?_, hkey.2 ▸ (haliases entry hmem).2⟩
  rcases normalizeBase_eq_iff.mp hkey.1 with h | h | h
  · rw [h.2]; decide
  · rw [h.2]; decide
  · exact h.2.2 ▸ (haliases entry hmem).1

end Agreement

theorem asciiTable_coinAliases : AsciiTable coinAliases := by
  have h : (coinAliases.all fun entry => decide (IsAscii entry.1 ∧ IsAscii entry.2.1)) = true := by
    decide
  simpa only [AsciiTable, List.all_eq_true, decide_eq_true_eq] using h

/-- **When the table shows what the resolver answers**: the rows are those of the pairs, one by one,
and a row shows on each of the three exchanges what the resolver answers to its name if and only if
`TableAgrees`. -/
theorem instrumentTable_agrees_iff (uni : Unicode) (huni : uni.OnAscii) (aliases : AliasTable)
    (haliases : AsciiTable aliases) (exchange : String)
    (hexchange : exchange ∈ ["okx", "kraken", "bitstamp"]) :
    List.Forall₂ (fun pair row =>
        row.instrument = pair.1 ++ "/" ++ pair.2 ∧
          (row.symbol exchange = (resolveIn aliases uni row.instrument exchange).1 ↔
            TableAgrees aliases exchange pair.1 pair.2))
      (instrumentPairs aliases).keys (instrumentTable uni aliases) := by
  rw [instrumentTable_eq_map_keys, List.forall₂_map_right_iff, List.forall₂_same]
  intro pair hpair
  obtain ⟨hbase, htarget⟩ :=
    isAscii_of_mem_instrumentPairs haliases (Std.ExtTreeMap.mem_keys.mp hpair)
  refine ⟨rfl, ?_⟩
  rw [← tableColumn_eq_iff huni haliases hexchange hbase htarget]
  simp only [List.mem_cons, List.not_mem_nil, or_false] at hexchange
  rcases hexchange with rfl | rfl | rfl <;> rfl

theorem instrumentTable_agrees_iff_coinAliases :
    List.Forall₂ (fun pair row =>
        row.instrument = pair.1 ++ "/" ++ pair.2 ∧
          (row.symbol "bitstamp" = (resolveIn coinAliases .ascii row.instrument "bitstamp").1 ↔
            TableAgrees coinAliases "bitstamp" pair.1 pair.2))
      (instrumentPairs coinAliases).keys (instrumentTable .ascii coinAliases) :=
  instrumentTable_agrees_iff .ascii Unicode.onAscii_ascii coinAliases asciiTable_coinAliases
    "bitstamp" (by simp)

/-- For `BTC/EUR` the table shows Kraken's `XBT/EUR`, and the resolver answers `BTC/EUR`. -/
theorem instrumentTable_differs :
    ¬ ∀ (uni : Unicode), uni.OnAscii → ∀ (aliases : AliasTable), AsciiTable aliases →
      ∀ row ∈ instrumentTable uni aliases, ∀ exchange ∈ ["okx", "kraken", "bitstamp"],
        row.symbol exchange = (resolveIn aliases uni row.instrument exchange).1 := by
  intro h
  have hrow := h .ascii Unicode.onAscii_ascii coinAliases asciiTable_coinAliases
    (tableRow .ascii coinAliases ("BTC", "EUR") (entriesOf coinAliases ("BTC", "EUR")))
    (by decide) "kraken" (by simp)
  exact absurd hrow (by decide)

end Cryptomeria
