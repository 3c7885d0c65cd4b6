import Cryptomeria.Exchange

/-!
# OKX and Kraken keep one book

The two `lob.rs` are copies of one algorithm over two kinds of raw level: OKX carries strings and
parses them wherever it looks at a level, Kraken carries numbers. `CodedMessage` is a message in
both codings, and `okx_agrees_kraken` says that the two books are equal after every one of them,
under any filter.

The filters do not look at a raw level except through `view`, so a filter of mapped levels is the
mapped filter (`snapshotLevels_map`). The rest is the simulation of one `BookModel` by another.
-/

set_option autoImplicit false

namespace Cryptomeria

/-! ## Books that do the same -/

namespace BookModel

variable {x y : BookModel}

/-- A message of one book and a message of the other that say the same. -/
structure SameEffect (mx : x.Msg) (my : y.Msg) : Prop where
  kind : x.kind mx = y.kind my
  notOrder : x.kind mx ≠ .order
  entries : ∀ s, x.entries mx s = y.entries my s
  snapshot : ∀ filter s, x.snapshot mx filter s = y.snapshot my filter s

theorem SameEffect.side_processMsg {mx : x.Msg} {my : y.Msg} (h : SameEffect mx my)
    (hgrow : x.grow = y.grow) (filter : Option LobFilter) {b : x.Book} {b' : y.Book}
    (hb : ∀ s, x.side b s = y.side b' s) (s : Side) :
    x.side (x.processMsg mx filter b) s = y.side (y.processMsg my filter b') s := by
  cases hk : x.kind mx with
  | snapshot =>
    rw [x.side_snapshot _ _ _ _ hk, y.side_snapshot _ _ _ _ (h.kind ▸ hk), hb s, h.snapshot]
  | update =>
    rw [x.side_update _ _ _ _ hk, y.side_update _ _ _ _ (h.kind ▸ hk), hb s, h.entries, hgrow]
  | order => exact absurd hk h.notOrder
  | idle => rw [x.side_idle _ _ _ _ hk, y.side_idle _ _ _ _ (h.kind ▸ hk), hb s]

/-- A message into each of two books, coded for each. -/
def stepPair {M : Type} (toX : M → x.Msg) (toY : M → y.Msg) (filter : Option LobFilter)
    (p : x.Book × y.Book) (m : M) : x.Book × y.Book :=
  (x.processMsg (toX m) filter p.1, y.processMsg (toY m) filter p.2)

theorem always_sides_eq {M : Type} {toX : M → x.Msg} {toY : M → y.Msg}
    (hgrow : x.grow = y.grow) (h : ∀ m, SameEffect (toX m) (toY m)) (filter : Option LobFilter)
    (ms : List M) :
    Trace.Always (stepPair toX toY filter) (fun p => ∀ s, x.side p.1 s = y.side p.2 s)
      (x.new, y.new) ms := by
  refine Trace.always_of_inductive (H := fun _ => True) ?_ (fun _ _ => trivial) ?_
  · intro s
    rw [x.side_new, y.side_new]
  · intro p m hp _ s
    exact (h m).side_processMsg hgrow filter hp s

end BookModel

/-! ## Raw levels behind a map -/

namespace Lob

variable {K L : Type} {view parse : L → Option (F64 × F64)}

theorem findBestPrice_map (g : K → L) (ks : List K) (s : Side) :
    findBestPrice view (ks.map g) s = findBestPrice (fun k => view (g k)) ks s := by
  rw [findBestPrice, List.foldl_map]
  rfl

theorem positiveLevels_map (g : K → L) (ks : List K) :
    positiveLevels view (ks.map g)
      = (positiveLevels (fun k => view (g k)) ks).map fun e => (e.1, e.2.1, g e.2.2) := by
  unfold positiveLevels
  induction ks with
  | nil => rfl
  | cons k ks ih =>
    simp only [List.map_cons, List.filterMap_cons]
    cases view (g k) with
    | none => exact ih
    | some e =>
      simp only [Option.map_some, List.filter_cons]
      split
      · rw [ih, List.map_cons]
      · exact ih

theorem filterSnapshotLevels_map (g : K → L) (b : OrderBook) (ks : List K) (s : Side)
    (f : LobFilter) (best : Option F64) :
    filterSnapshotLevels view b (ks.map g) s f best
      = (filterSnapshotLevels (fun k => view (g k)) b ks s f best).map g := by
  cases f with
  | maxLevelPct pct ar => exact List.filter_map
  | maxLevel n =>
    have hsort : ∀ es : List (F64 × F64 × K),
        (es.map fun e => (e.1, e.2.1, g e.2.2)).mergeSort (fun x y => !s.beats y.1 x.1)
          = (es.mergeSort fun x y => !s.beats y.1 x.1).map fun e => (e.1, e.2.1, g e.2.2) := by
      intro es
      -- the order looks at the prices only
      have hle : ∀ a ∈ es, ∀ b ∈ es, (!s.beats b.1 a.1) = !s.beats b.1 a.1 :=
        fun _ _ _ _ => rfl
      exact (@List.map_mergeSort _ _ _ (fun x y => !s.beats y.1 x.1)
        (fun e => (e.1, e.2.1, g e.2.2)) es hle).symm
    rw [filterSnapshotLevels_maxLevel, filterSnapshotLevels_maxLevel, positiveLevels_map, hsort,
      ← List.map_take, List.map_map, List.map_map]
    rfl

theorem snapshotLevels_map (g : K → L) (filter : Option LobFilter) (s : Side) (ks : List K) :
    snapshotLevels view parse filter s (ks.map g)
      = snapshotLevels (fun k => view (g k)) (fun k => parse (g k)) filter s ks := by
  cases filter with
  | none => simp [snapshotLevels, List.filterMap_map]
  | some f =>
    simp [snapshotLevels, findBestPrice_map, filterSnapshotLevels_map, List.filterMap_map]

end Lob

/-! ## One message in two codings -/

/-- A level with its numbers, and with texts that OKX reads as these numbers. -/
structure CodedLevel where
  price : Number
  size : Number
  priceText : String
  sizeText : String
  /-- What OKX lists after the size. -/
  rest : List String := []
  parse_price : parseF64 priceText = some price.toF64
  parse_size : parseF64 sizeText = some size.toF64

namespace CodedLevel

variable (l : CodedLevel)

def numbers : F64 × F64 := (l.price.toF64, l.size.toF64)

def texts : List String := l.priceText :: l.sizeText :: l.rest

def okx : Value := .array (l.texts.map .string)

def kraken : Value := .object [("price", .number l.price), ("qty", .number l.size)]

end CodedLevel

structure CodedMessage where
  action : Option String
  bids : List CodedLevel
  asks : List CodedLevel

namespace CodedMessage

variable (m : CodedMessage)

def side : Side → List CodedLevel
  | .bid => m.bids
  | .ask => m.asks

def okx : Okx.OkxWsMessage :=
  { action := m.action
    data := [.object [("bids", .array (m.bids.map CodedLevel.okx)),
      ("asks", .array (m.asks.map CodedLevel.okx))]] }

def kraken : Kraken.KrakenWsMessage :=
  { msgType := m.action
    data := [.object [("bids", .array (m.bids.map CodedLevel.kraken)),
      ("asks", .array (m.asks.map CodedLevel.kraken))]] }

end CodedMessage

theorem Number.toF64_eq_fin (n : Number) : ∃ q, n.toF64 = .fin q := by
  cases n with
  | int z => exact ⟨z, rfl⟩
  | float m d => exact ⟨m / 10 ^ d, rfl⟩

theorem Okx.parseLevel_texts (l : CodedLevel) : Okx.parseLevel l.texts = some l.numbers := by
  simp [Okx.parseLevel, CodedLevel.texts, CodedLevel.numbers, l.parse_price, l.parse_size]

theorem Kraken.parseLevel_numbers (l : CodedLevel) :
    Kraken.parseLevel l.numbers = some l.numbers := by
  obtain ⟨p, hp⟩ := l.price.toF64_eq_fin
  obtain ⟨q, hq⟩ := l.size.toF64_eq_fin
  simp [Kraken.parseLevel, CodedLevel.numbers, hp, hq, F64.isNan]

theorem Okx.levelsOf_coded (m : CodedMessage) (s : Side) :
    Lob.levelsOf OkxWsMessage.data Okx.parseLevels m.okx s
      = (m.side s).map CodedLevel.texts := by
  have hread : ∀ ls : List CodedLevel,
      (ls.map CodedLevel.okx).filterMap (fun v => v.asArray.map fun a => a.filterMap Value.asStr)
        = ls.map CodedLevel.texts := by
    intro ls
    induction ls with
    | nil => rfl
    | cons l ls ih =>
      have hstr : (l.texts.map Value.string).filterMap Value.asStr = l.texts := by
        rw [List.filterMap_map]
        exact List.filterMap_some
      rw [List.map_cons, List.filterMap_cons, ih, List.map_cons, CodedLevel.okx, Value.asArray,
        Option.map_some, hstr]
  cases s <;> exact hread _

theorem Kraken.levelsOf_coded (m : CodedMessage) (s : Side) :
    Lob.levelsOf KrakenWsMessage.data Kraken.parseLevels m.kraken s
      = (m.side s).map CodedLevel.numbers := by
  have hread : ∀ ls : List CodedLevel,
      (ls.map CodedLevel.kraken).filterMap (fun v => do
          let price ← (v.get "price").bind Value.asF64
          let qty ← (v.get "qty").bind Value.asF64
          return (price, qty))
        = ls.map CodedLevel.numbers := by
    intro ls
    induction ls with
    | nil => rfl
    | cons l ls ih =>
      rw [List.map_cons, List.filterMap_cons, ih]
      rfl
  cases s <;> exact hread _

/-- The two codings have the same effect on the books of their exchanges. -/
theorem CodedMessage.sameEffect (m : CodedMessage) :
    BookModel.SameEffect (x := Okx.model) (y := Kraken.model) m.okx m.kraken where
  kind := rfl
  notOrder := @Lob.kindOf_ne_order _ Okx.OkxWsMessage.data Okx.OkxWsMessage.action m.okx
  entries s := by
    show (Lob.levelsOf _ _ m.okx s).filterMap _ = (Lob.levelsOf _ _ m.kraken s).filterMap _
    rw [Okx.levelsOf_coded, Kraken.levelsOf_coded, List.filterMap_map, List.filterMap_map]
    refine List.filterMap_congr fun l _ => ?_
    exact (Okx.parseLevel_texts l).trans (Kraken.parseLevel_numbers l).symm
  snapshot filter s := by
    show Lob.snapshotLevels _ _ filter s (Lob.levelsOf _ _ m.okx s)
      = Lob.snapshotLevels _ _ filter s (Lob.levelsOf _ _ m.kraken s)
    rw [Okx.levelsOf_coded, Kraken.levelsOf_coded, Lob.snapshotLevels_map, Lob.snapshotLevels_map]
    simp only [Okx.parseLevel_texts, Kraken.parseLevel_numbers]

/-- **One algorithm.** Under any filter the two books are equal after every message of a run. -/
theorem okx_agrees_kraken (filter : Option LobFilter) (ms : List CodedMessage) :
    Trace.Always
      (fun (p : OrderBook × OrderBook) (m : CodedMessage) =>
        (Okx.processMsg m.okx filter p.1, Kraken.processMsg m.kraken filter p.2))
      (fun p => p.1.bids = p.2.bids ∧ p.1.asks = p.2.asks) (OrderBook.new, OrderBook.new) ms := by
  have hsides := BookModel.always_sides_eq (x := Okx.model) (y := Kraken.model) rfl
    CodedMessage.sameEffect filter ms
  refine Trace.Always.mono hsides ?_
  intro p hp
  exact ⟨hp .bid, hp .ask⟩

end Cryptomeria
