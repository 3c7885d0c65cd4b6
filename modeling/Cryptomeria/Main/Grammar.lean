import Cryptomeria.Lib.Selection
import Cryptomeria.Main.Instruments

/-!
# The grammar of `--instruments`

A list of pairs can be written in three ways: `symbol@exchange`, `@exchange` after a pair with the
same symbol, and `symbol` for the default exchange. Parts are joined by commas, with blanks around
them and blank parts between. `Written` is that grammar, from the pairs to the text.

The parser takes the symbol for `@exchange` from the pair before, but only once it has seen a
`symbol@exchange`. Before that it drops the part. `parseInstrumentsList_eq_iff` says that this is
all that goes wrong.
-/

set_option autoImplicit false

namespace Cryptomeria

open WriteLog

/-! ## The grammar -/

def IsBlank (cs : List Char) : Prop := ∀ c ∈ cs, isWhitespace c = true

/-- A symbol or an exchange that can be written in a list. -/
structure IsName (s : String) : Prop where
  nonempty : s.toList ≠ []
  comma : ',' ∉ s.toList
  at_sign : '@' ∉ s.toList
  no_leading : ∀ c ∈ s.toList.head?, isWhitespace c = false
  no_trailing : ∀ c ∈ s.toList.getLast?, isWhitespace c = false

theorem isName_iff {s : String} : IsName s ↔
    s.toList ≠ [] ∧ ',' ∉ s.toList ∧ '@' ∉ s.toList ∧
      (s.toList.head?.all fun c => !isWhitespace c) = true ∧
      (s.toList.getLast?.all fun c => !isWhitespace c) = true := by
  have hall : ∀ o : Option Char, (o.all fun c => !isWhitespace c) = true ↔
      ∀ c ∈ o, isWhitespace c = false := by
    intro o
    cases o <;> simp
  rw [hall, hall]
  exact ⟨fun h => ⟨h.nonempty, h.comma, h.at_sign, h.no_leading, h.no_trailing⟩,
    fun ⟨h₁, h₂, h₃, h₄, h₅⟩ => ⟨h₁, h₂, h₃, h₄, h₅⟩⟩

instance : DecidablePred IsName := fun _ => decidable_of_iff _ isName_iff.symm

/-- How a pair is written. -/
inductive Spelling where
  /-- `symbol@exchange` -/
  | full
  /-- `@exchange` -/
  | again
  /-- `symbol` -/
  | bare
deriving DecidableEq

def Spelling.text (symbol exchange : String) : Spelling → List Char
  | full => symbol.toList ++ '@' :: exchange.toList
  | again => '@' :: exchange.toList
  | bare => symbol.toList

/-- What stands between two commas. -/
inductive Part where
  | blank (blanks : List Char)
  | pair (left : List Char) (how : Spelling) (symbol exchange : String) (right : List Char)

namespace Part

def text : Part → List Char
  | blank blanks => blanks
  | pair left how symbol exchange right => left ++ how.text symbol exchange ++ right

def how : Part → Option Spelling
  | blank _ => none
  | pair _ how _ _ _ => some how

def value : Part → Option (String × String)
  | blank _ => none
  | pair _ _ symbol exchange _ => some (symbol, exchange)


/-- The part can stand after these pairs. -/
def Fits (defaultExchange : String) (before : List (String × String)) : Part → Prop
  | blank blanks => IsBlank blanks
  | pair left how symbol exchange right =>
    IsBlank left ∧ IsBlank right ∧ IsName symbol ∧ IsName exchange ∧
      match how with
      | .full => True
      | .again => ∃ last, before.getLast? = some last ∧ last.1 = symbol
      | .bare => exchange = defaultExchange

end Part

/-- The pairs that a list of parts stands for. -/
def pairsOf (parts : List Part) : List (String × String) := parts.filterMap Part.value

/-- The parts write the pairs they stand for. -/
inductive Written (defaultExchange : String) : List Part → Prop
  | nil : Written defaultExchange []
  | concat {parts : List Part} {part : Part} (h : Written defaultExchange parts)
      (hfits : part.Fits defaultExchange (pairsOf parts)) :
      Written defaultExchange (parts ++ [part])

/-- The text on the command line. -/
def renderParts (parts : List Part) : String :=
  String.ofList ([','].intercalate (parts.map Part.text))

/-- A `symbol@exchange` stands before every `@exchange`. -/
def Anchored (parts : List Part) : Prop :=
  ∀ pre part post, parts = pre ++ part :: post → part.how = some .again →
    ∃ first ∈ pre, first.how = some .full

theorem anchored_nil : Anchored [] := by
  intro pre part post h
  simp at h

theorem anchored_concat_iff {parts : List Part} {part : Part} :
    Anchored (parts ++ [part]) ↔
      Anchored parts ∧ (part.how = some .again → ∃ first ∈ parts, first.how = some .full) := by
  constructor
  · intro h
    refine ⟨fun pre part' post hsplit => ?_, h parts part [] rfl⟩
    exact h pre part' (post ++ [part]) (by simp [hsplit])
  · rintro ⟨h, hlast⟩ pre part' post hsplit
    rcases concat_eq_split_iff.mp hsplit with ⟨-, rfl, rfl⟩ | ⟨post', -, hsplit'⟩
    · exact hlast
    · exact h pre part' post' hsplit'

/-! ## Blanks -/

theorem dropWhile_blank {blanks cs : List Char} (hb : IsBlank blanks)
    (hcs : ∀ c ∈ cs.head?, isWhitespace c = false) :
    (blanks ++ cs).dropWhile isWhitespace = cs := by
  rw [List.dropWhile_append_of_pos hb]
  cases cs with
  | nil => rfl
  | cons c cs => rw [List.dropWhile_cons_of_neg (by simp [hcs c rfl])]

/-- `trim` takes the blanks around a text that neither begins nor ends with one. -/
theorem trim_pad {left cs right : List Char} (hl : IsBlank left) (hr : IsBlank right)
    (hne : cs ≠ []) (hhead : ∀ c ∈ cs.head?, isWhitespace c = false)
    (hlast : ∀ c ∈ cs.getLast?, isWhitespace c = false) :
    trim (left ++ cs ++ right) = cs := by
  have hhead' : ∀ c ∈ (cs ++ right).head?, isWhitespace c = false := by
    rwa [List.head?_append_of_ne_nil _ hne]
  rw [trim, List.append_assoc, dropWhile_blank hl hhead', List.rdropWhile, List.reverse_append,
    dropWhile_blank (fun c hc => hr c (List.mem_reverse.mp hc)) (by rwa [List.head?_reverse]),
    List.reverse_reverse]

theorem trim_blank {blanks : List Char} (hb : IsBlank blanks) : trim blanks = [] := by
  rw [trim, List.dropWhile_eq_nil_iff.mpr hb]
  rfl

/-! ## One part -/

section Parts

variable {defaultExchange symbol exchange : String}

theorem Spelling.text_ne_nil (hs : IsName symbol) (how : Spelling) :
    how.text symbol exchange ≠ [] := by
  cases how with
  | full | again => simp [text]
  | bare => exact hs.nonempty

theorem Spelling.no_leading (hs : IsName symbol) (how : Spelling) :
    ∀ c ∈ (how.text symbol exchange).head?, isWhitespace c = false := by
  cases how with
  | full =>
    rw [text, List.head?_append_of_ne_nil _ hs.nonempty]
    exact hs.no_leading
  | again =>
    intro c hc
    obtain rfl := Option.some.inj hc
    decide
  | bare => exact hs.no_leading

theorem Spelling.no_trailing (hs : IsName symbol) (he : IsName exchange) (how : Spelling) :
    ∀ c ∈ (how.text symbol exchange).getLast?, isWhitespace c = false := by
  have hcons : ('@' :: exchange.toList).getLast? = exchange.toList.getLast? := by
    obtain ⟨c, cs, hcs⟩ := List.exists_cons_of_ne_nil he.nonempty
    rw [hcs, List.getLast?_cons_cons]
  cases how with
  | full =>
    rw [text, List.getLast?_append_of_ne_nil _ (by simp), hcons]
    exact he.no_trailing
  | again =>
    rw [text, hcons]
    exact he.no_trailing
  | bare => exact hs.no_trailing

theorem Spelling.comma (hs : IsName symbol) (he : IsName exchange) (how : Spelling) :
    ',' ∉ how.text symbol exchange := by
  cases how with
  | full => simp [text, hs.comma, he.comma]
  | again => simp [text, he.comma]
  | bare => exact hs.comma

/-- The state after a part that writes a pair. -/
def InstrumentsList.afterPair (self : InstrumentsList) (symbol exchange : String) :
    Spelling → InstrumentsList
  | .full => { results := self.results ++ [(symbol, exchange)], impliedExchange := some exchange }
  | .again =>
    match self.impliedExchange.bind fun _ => self.results.getLast? with
    | some last => { self with results := self.results ++ [(last.1, exchange)] }
    | none => self
  | .bare => { self with results := self.results ++ [(symbol, exchange)] }

theorem InstrumentsList.push_blank {blanks : List Char} (hb : IsBlank blanks)
    (self : InstrumentsList) : self.push defaultExchange blanks = self := by
  rw [push, trim_blank hb]
  rfl

theorem InstrumentsList.push_pair {left right : List Char} {how : Spelling} (hl : IsBlank left)
    (hr : IsBlank right) (hs : IsName symbol) (he : IsName exchange)
    (hbare : how = .bare → exchange = defaultExchange) (self : InstrumentsList) :
    self.push defaultExchange (left ++ how.text symbol exchange ++ right)
      = self.afterPair symbol exchange how := by
  have htrim := trim_pad hl hr (how.text_ne_nil hs) (how.no_leading hs) (how.no_trailing hs he)
  have hne := @Spelling.text_ne_nil symbol exchange hs how
  rw [push, htrim, if_neg hne]
  cases how with
  | full =>
    obtain ⟨c, cs, hcs⟩ := List.exists_cons_of_ne_nil hs.nonempty
    rw [Spelling.text, rsplitAt_append _ he.at_sign, hcs]
    simp only [afterPair, String.ofList_toList, ← hcs]
  | again =>
    have hsplit : rsplitAt (Spelling.again.text symbol exchange) = some ([], exchange.toList) :=
      rsplitAt_append [] he.at_sign
    rw [hsplit]
    simp only [String.ofList_toList]
    rfl
  | bare =>
    rw [Spelling.text, rsplitAt_eq_none hs.at_sign]
    simp only [afterPair, String.ofList_toList, hbare rfl]

end Parts

/-! ## The whole list -/

section Lists

variable {defaultExchange : String} {parts : List Part}

/-- What the loop has done after these parts. -/
structure Progress (parts : List Part) (list : InstrumentsList) : Prop where
  implied : list.impliedExchange.isSome = true ↔ ∃ part ∈ parts, part.how = some .full
  length : list.results.length ≤ (pairsOf parts).length
  results : list.results = pairsOf parts ↔ Anchored parts

theorem Progress.blank {self : InstrumentsList} (h : Progress parts self) (blanks : List Char) :
    Progress (parts ++ [.blank blanks]) self := by
  have hpairs : pairsOf (parts ++ [.blank blanks]) = pairsOf parts := by
    simp [pairsOf, Part.value]
  have hfull : (∃ part ∈ parts ++ [.blank blanks], part.how = some .full) ↔
      ∃ part ∈ parts, part.how = some .full := by
    simp [or_and_right, exists_or, Part.how]
  refine ⟨h.implied.trans hfull.symm, hpairs.symm ▸ h.length, ?_⟩
  rw [hpairs, h.results, anchored_concat_iff]
  simp [Part.how]

/-- A pair that is pushed with the right symbol. -/
theorem Progress.pushed {self self' : InstrumentsList} {part : Part} {pair : String × String}
    (h : Progress parts self) (hvalue : part.value = some pair)
    (hresults : self'.results = self.results ++ [pair])
    (himplied : self'.impliedExchange.isSome = true ↔
      self.impliedExchange.isSome = true ∨ part.how = some .full)
    (hagain : part.how = some .again → self.impliedExchange.isSome = true) :
    Progress (parts ++ [part]) self' := by
  have hpairs : pairsOf (parts ++ [part]) = pairsOf parts ++ [pair] := by
    simp [pairsOf, hvalue]
  refine ⟨?_, ?_, ?_⟩
  · rw [himplied, h.implied]
    simp [or_and_right, exists_or]
  · have := h.length
    simp only [hpairs, hresults, List.length_append, List.length_singleton]
    omega
  · rw [hpairs, hresults, List.append_left_inj, h.results, anchored_concat_iff]
    exact (and_iff_left fun hhow => h.implied.mp (hagain hhow)).symm

/-- An `@exchange` that is dropped. -/
theorem Progress.dropped {self : InstrumentsList} {part : Part} {pair : String × String}
    (h : Progress parts self) (hvalue : part.value = some pair) (hagain : part.how = some .again)
    (hbad : self.results = pairsOf parts → self.impliedExchange.isSome = false) :
    Progress (parts ++ [part]) self := by
  have hpairs : pairsOf (parts ++ [part]) = pairsOf parts ++ [pair] := by
    simp [pairsOf, hvalue]
  have hlength := h.length
  refine ⟨?_, ?_, ?_⟩
  · rw [h.implied]
    simp [or_and_right, exists_or, hagain]
  · rw [hpairs, List.length_append]
    omega
  · rw [hpairs, anchored_concat_iff, ← h.results]
    refine iff_of_false (fun heq => ?_) fun hboth => ?_
    · have hlong := congrArg List.length heq
      rw [List.length_append, List.length_singleton] at hlong
      omega
    · exact absurd (h.implied.mpr (hboth.2 hagain)) (by simp [hbad hboth.1])

theorem Progress.again {self : InstrumentsList} {left right : List Char}
    {symbol exchange : String} (h : Progress parts self)
    (hlast : ∃ last, (pairsOf parts).getLast? = some last ∧ last.1 = symbol) :
    Progress (parts ++ [.pair left .again symbol exchange right])
      (self.afterPair symbol exchange .again) := by
  obtain ⟨last, hlast, rfl⟩ := hlast
  cases himplied : self.impliedExchange with
  | none =>
    have hself : self.afterPair last.1 exchange .again = self := by
      simp [InstrumentsList.afterPair, himplied]
    rw [hself]
    exact h.dropped rfl rfl fun _ => by rw [himplied]; rfl
  | some implied =>
    cases hres : self.results.getLast? with
    | none =>
      -- the loop has lost the pairs before
      have hself : self.afterPair last.1 exchange .again = self := by
        simp [InstrumentsList.afterPair, himplied, hres]
      rw [hself]
      refine h.dropped rfl rfl fun heq => ?_
      rw [heq, hlast] at hres
      cases hres
    | some last' =>
      have hself : self.afterPair last.1 exchange .again
          = { self with results := self.results ++ [(last'.1, exchange)] } := by
        simp [InstrumentsList.afterPair, himplied, hres]
      have hpairs : pairsOf (parts ++ [.pair left .again last.1 exchange right])
          = pairsOf parts ++ [(last.1, exchange)] := by simp [pairsOf, Part.value]
      have hanchor : self.impliedExchange.isSome = true := by rw [himplied]; rfl
      have hlength := h.length
      rw [hself]
      refine ⟨?_, ?_, ?_⟩
      · rw [h.implied]
        simp [or_and_right, exists_or, Part.how]
      · simp only [hpairs, List.length_append, List.length_singleton]
        omega
      · rw [hpairs, anchored_concat_iff, ← h.results]
        constructor
        · intro heq
          exact ⟨(List.append_inj' heq rfl).1, fun _ => h.implied.mp hanchor⟩
        · rintro ⟨heq, -⟩
          -- the pair before is the one that was written before
          rw [heq, hlast] at hres
          obtain rfl := Option.some.inj hres
          simp only [heq]

theorem progress_run (h : Written defaultExchange parts) :
    Progress parts ((parts.map Part.text).foldl (InstrumentsList.push defaultExchange) {}) := by
  induction h with
  | nil => exact ⟨by simp, by simp [pairsOf], iff_of_true rfl anchored_nil⟩
  | @concat parts part _ hfits ih =>
    rw [List.map_append, List.map_singleton, List.foldl_concat]
    cases part with
    | blank blanks =>
      rw [Part.text, InstrumentsList.push_blank hfits]
      exact ih.blank blanks
    | pair left how symbol exchange right =>
      obtain ⟨hl, hr, hs, he, hhow⟩ := hfits
      rw [Part.text, InstrumentsList.push_pair hl hr hs he (by rintro rfl; exact hhow)]
      cases how with
      | full =>
        refine ih.pushed rfl rfl ?_ (by simp [Part.how])
        simp [InstrumentsList.afterPair, Part.how]
      | again => exact ih.again hhow
      | bare =>
        refine ih.pushed rfl rfl ?_ (by simp [Part.how])
        simp [InstrumentsList.afterPair, Part.how]

theorem comma_notMem_text (h : Written defaultExchange parts) :
    ∀ part ∈ parts, ',' ∉ part.text := by
  have hblank : ∀ {blanks : List Char}, IsBlank blanks → ',' ∉ blanks := by
    intro blanks hb hmem
    exact absurd (hb _ hmem) (by decide)
  induction h with
  | nil => simp
  | @concat parts part _ hfits ih =>
    intro part' hpart'
    rcases List.mem_append.mp hpart' with hpart' | hpart'
    · exact ih part' hpart'
    · obtain rfl := List.mem_singleton.mp hpart'
      cases part' with
      | blank blanks => exact hblank hfits
      | pair left how symbol exchange right =>
        obtain ⟨hl, hr, hs, he, -⟩ := hfits
        simp only [Part.text, List.mem_append, not_or]
        exact ⟨⟨hblank hl, how.comma hs he⟩, hblank hr⟩

end Lists

/-- **When a list of instruments is read back.** What `parse_instruments_list` returns for a list
written in the grammar is the list of pairs if and only if a `symbol@exchange` stands before every
`@exchange`. -/
theorem parseInstrumentsList_eq_iff (defaultExchange : String) (parts : List Part)
    (h : Written defaultExchange parts) :
    parseInstrumentsList (renderParts parts) defaultExchange = pairsOf parts ↔ Anchored parts := by
  have hprogress := progress_run h
  cases parts with
  | nil => exact iff_of_true rfl anchored_nil
  | cons part parts =>
    rw [parseInstrumentsList, renderParts, String.toList_ofList, List.splitOn_intercalate]
    · exact hprogress.results
    · intro text htext
      obtain ⟨part', hpart', rfl⟩ := List.mem_map.mp htext
      exact comma_notMem_text h part' hpart'
    · simp

/-- `BTC@okx, @kraken` -/
def anchoredList : List Part :=
  [.pair [] .full "BTC" "okx" []] ++ [.pair [' '] .again "BTC" "kraken" []]

theorem parseInstrumentsList_eq_iff_anchored :
    parseInstrumentsList (renderParts anchoredList) "bitstamp" = pairsOf anchoredList ↔
      Anchored anchoredList := by
  refine parseInstrumentsList_eq_iff "bitstamp" anchoredList (.concat ?_ ?_)
  · refine @Written.concat _ [] _ .nil ⟨by simp [IsBlank], by simp [IsBlank], ?_, ?_, trivial⟩
    all_goals decide
  · refine ⟨by simp [IsBlank]; decide, by simp [IsBlank], ?_, ?_, _, rfl, rfl⟩
    all_goals decide

/-- `BTC,@kraken` -/
def bareThenAgain : List Part :=
  [.pair [] .bare "BTC" "okx" []] ++ [.pair [] .again "BTC" "kraken" []]

theorem written_bareThenAgain : Written "okx" bareThenAgain := by
  refine .concat (@Written.concat _ [] _ .nil ?_)
    ⟨by simp [IsBlank], by simp [IsBlank], ?_, ?_, _, rfl, rfl⟩
  · refine ⟨by simp [IsBlank], by simp [IsBlank], ?_, ?_, rfl⟩
    all_goals decide
  all_goals decide

/-- The pair on Kraken is dropped. -/
theorem parseInstrumentsList_drops :
    ¬ ∀ (defaultExchange : String) (parts : List Part), Written defaultExchange parts →
      pairsOf parts ≠ [] →
      parseInstrumentsList (renderParts parts) defaultExchange = pairsOf parts := by
  intro h
  have hparse := h "okx" bareThenAgain written_bareThenAgain (by decide)
  exact absurd hparse (by decide)

end Cryptomeria
