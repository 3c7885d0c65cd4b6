import Cryptomeria.Client.Report
import Cryptomeria.Lib.Grouping

/-!
# The handler of `/metrics`

The handler in `start_http_server` goes over all families that the registry gathers and sorts every
metric into the object of its exchange and instrument; then it sorts the `depth` arrays. What it
answers for an exchange and an instrument is `LobMetrics.entry`, whatever else is in the registry
(`metricsBody_gather`). So what is proved about `report` holds of the answer.
-/

set_option autoImplicit false

namespace Cryptomeria

/-! ## What is gathered -/

/-- `prometheus::proto::Metric`: its label pairs, and the value of its gauge. -/
structure Metric where
  label : List (String × String)
  value : F64

structure MetricFamily where
  name : String
  metric : List Metric

/-- Label names and values, paired; `with_label_values` takes no other number of values. -/
def family (name : String) (labelNames : List String) (entries : List (List String × F64)) :
    MetricFamily where
  name
  metric := entries.filterMap fun (labels, value) =>
    if labels.length = labelNames.length then some { label := labelNames.zip labels, value }
    else none

/-- `registry.gather()`: the families by name, each with its metrics by their label values. A family
without metrics is not there. -/
def LobMetrics.gather (lm : LobMetrics) : List MetricFamily :=
  let two := ["exchange", "instrument"]
  let three := ["exchange", "instrument", "price"]
  [family "lob_best_ask" two lm.bestAsk.toList,
    family "lob_best_bid" two lm.bestBid.toList,
    family "lob_depth_ask" three lm.lobDepthAsk.toList,
    family "lob_depth_bid" three lm.lobDepthBid.toList,
    family "lob_last_update_timestamp" two lm.lastUpdate.toList,
    family "lob_spread" two lm.spread.toList,
    family "trades_total" two (lm.tradesTotal.toList.map fun e => (e.1, .fin e.2))].filter
      fun mf => !mf.metric.isEmpty

/-! ## The handler -/

/-- `json!(x)` of an `f64`: `null` if it is not finite. -/
def jsonF64 : F64 → Option ℚ
  | .fin q => some q
  | _ => none

/-- An element of a `depth` array. -/
structure DepthItem where
  price : Option ℚ
  volume : Option ℚ
  side : Side
deriving DecidableEq

/-- The object of an exchange and instrument; a field that is `none` is not there. -/
structure MetricsObject where
  bestBid : Option (Option ℚ) := none
  bestAsk : Option (Option ℚ) := none
  spread : Option (Option ℚ) := none
  lastUpdateTs : Option ℕ := none
  tradesTotal : Option ℤ := none
  depth : Option (List DepthItem) := none
deriving DecidableEq

/-- `labels.get(name)`; the last pair with a name counts. -/
def Metric.get (m : Metric) (name : String) : Option String := m.label.reverse.lookup name

/-- Where the metric goes, unless its exchange or instrument is empty. -/
def Metric.key (m : Metric) : Option (List String) :=
  let exchange := (m.get "exchange").getD ""
  let instrument := (m.get "instrument").getD ""
  if exchange = "" ∨ instrument = "" then none else some [exchange, instrument]

/-- The `match` on the name of the family. -/
def setField (name : String) (m : Metric) (entry : MetricsObject) : MetricsObject :=
  match name with
  | "lob_best_bid" => { entry with bestBid := some (jsonF64 m.value) }
  | "lob_best_ask" => { entry with bestAsk := some (jsonF64 m.value) }
  | "lob_spread" => { entry with spread := some (jsonF64 m.value) }
  | "lob_last_update_timestamp" => { entry with lastUpdateTs := some m.value.toU64 }
  | "trades_total" => { entry with tradesTotal := some m.value.toI64 }
  | "lob_depth_bid" | "lob_depth_ask" =>
    let side : Side := if name = "lob_depth_bid" then .bid else .ask
    let price := ((m.get "price").bind parseF64).getD F64.zero
    { entry with
      depth := some (entry.depth.getD []
        ++ [{ price := jsonF64 price, volume := jsonF64 m.value, side }]) }
  | _ => entry

/-- The comparison of `sort_by`; a price that is `null` is read as zero. -/
def compareItems (a b : DepthItem) : Ordering :=
  match a.side, b.side with
  | .bid, .bid => compare (b.price.getD 0) (a.price.getD 0)
  | .ask, .ask => compare (a.price.getD 0) (b.price.getD 0)
  | .bid, .ask => .lt
  | .ask, .bid => .gt

def sortDepth (entry : MetricsObject) : MetricsObject :=
  { entry with
    depth := entry.depth.map fun arr => arr.mergeSort fun a b => (compareItems a b).isLE }

/-- A metric with the name of its family. -/
abbrev Sample := String × Metric

def MetricFamily.samples (mf : MetricFamily) : List Sample := mf.metric.map (Prod.mk mf.name)

def Sample.key (sample : Sample) : Option (List String) := sample.2.key

/-- The inner loop. -/
def Sample.put (sample : Sample) (entry : MetricsObject) : MetricsObject :=
  setField sample.1 sample.2 entry

/-- The body of the answer. The maps of exchanges and of their instruments are one map here. -/
def metricsBody (families : List MetricFamily) : Std.ExtTreeMap (List String) MetricsObject :=
  let byExchange := families.foldl
    (fun byExchange mf => mf.samples.foldl (Grouping.visit Sample.key Sample.put {}) byExchange) ∅
  byExchange.map fun _ entry => sortDepth entry

/-! ## The samples of one exchange and instrument -/

/-- The element of the answer for an entry of a depth gauge. -/
def DepthEntry.item (e : DepthEntry) : DepthItem where
  price := jsonF64 e.price
  volume := jsonF64 e.volume
  side := e.side

namespace MetricsObject

/-- The samples of a depth gauge are pushed one after the other. -/
def push (entry : MetricsObject) (items : List DepthItem) : MetricsObject :=
  { entry with depth := if items = [] then entry.depth else some (entry.depth.getD [] ++ items) }

theorem push_cons (entry : MetricsObject) (item : DepthItem) (items : List DepthItem) :
    ({ entry with depth := some (entry.depth.getD [] ++ [item]) }).push items
      = entry.push (item :: items) := by
  cases items <;> simp [push]

theorem push_push (entry : MetricsObject) (items items' : List DepthItem) :
    (entry.push items).push items' = entry.push (items ++ items') := by
  cases items <;> cases items' <;> simp [push]

end MetricsObject

/-- The sample that an entry of a gauge vector gives to `key`. -/
def sampleAt (name : String) (labelNames key : List String) (e : List String × F64) :
    Option Sample :=
  if e.1.length = labelNames.length then
    some (name, { label := labelNames.zip e.1, value := e.2 }) |>.filter
      fun sample => sample.key = some key
  else none

theorem itemsOf_samples (name : String) (labelNames key : List String)
    (entries : List (List String × F64)) :
    Grouping.itemsOf Sample.key key (family name labelNames entries).samples
      = entries.filterMap (sampleAt name labelNames key) := by
  simp only [Grouping.itemsOf, MetricFamily.samples, family, List.map_filterMap,
    List.filter_filterMap]
  refine List.filterMap_congr fun e _ => ?_
  unfold sampleAt
  split <;> rfl

/-- The two loops are one loop over all samples. -/
theorem foldl_samples (families : List MetricFamily)
    (byExchange : Std.ExtTreeMap (List String) MetricsObject) :
    families.foldl (fun byExchange mf =>
        mf.samples.foldl (Grouping.visit Sample.key Sample.put {}) byExchange) byExchange
      = (families.flatMap MetricFamily.samples).foldl (Grouping.visit Sample.key Sample.put {})
          byExchange := by
  induction families generalizing byExchange with
  | nil => rfl
  | cons mf families ih => rw [List.foldl_cons, ih, List.flatMap_cons, List.foldl_append]

/-- Every sample of the registry leaves something in its object. -/
theorem put_ne_empty {lm : LobMetrics} {sample : Sample}
    (h : sample ∈ lm.gather.flatMap MetricFamily.samples) (entry : MetricsObject) :
    sample.put entry ≠ {} := by
  obtain ⟨mf, hmf, hsample⟩ := List.mem_flatMap.mp h
  obtain ⟨m, -, rfl⟩ := List.mem_map.mp hsample
  have hname := (List.mem_filter.mp hmf).1
  simp only [List.mem_cons, List.not_mem_nil, or_false] at hname
  rcases hname with rfl | rfl | rfl | rfl | rfl | rfl | rfl
  all_goals simp [Sample.put, setField, family]

section Named

variable {exchange instrument : String} (he : exchange ≠ "") (hi : instrument ≠ "")
include he hi

/-- A metric with these labels goes to the named exchange and instrument if they are its own. -/
theorem sampleAt_eq (name : String) (labelNames labels : List String) (a b : String)
    {value : F64} (hlength : labels.length = labelNames.length)
    (hkey : ({ label := labelNames.zip labels, value } : Metric).key
      = if a = "" ∨ b = "" then none else some [a, b]) :
    sampleAt name labelNames [exchange, instrument] (labels, value)
      = if a = exchange ∧ b = instrument then
          some (name, { label := labelNames.zip labels, value }) else none := by
  have hiff : (if a = "" ∨ b = "" then none else some [a, b]) = some [exchange, instrument] ↔
      a = exchange ∧ b = instrument := by
    constructor
    · intro h
      split at h
      · cases h
      · simpa using h
    · intro h
      simp [h.1, h.2, he, hi]
  simp only [sampleAt, hlength, if_true, Option.filter_some, Sample.key, hkey, hiff,
    decide_eq_true_eq]

/-- A vector with two labels has one sample at most. -/
theorem filterMap_sampleAt_two {V : Type} (name : String) (toF64 : V → F64)
    (g : Std.ExtTreeMap (List String) V) :
    (g.toList.map fun e => (e.1, toF64 e.2)).filterMap
        (sampleAt name ["exchange", "instrument"] [exchange, instrument])
      = (g[[exchange, instrument]]?.map fun v =>
          (name, { label := [("exchange", exchange), ("instrument", instrument)]
                   value := toF64 v })).toList := by
  have hother : ∀ labels v, labels ≠ [exchange, instrument] →
      sampleAt name ["exchange", "instrument"] [exchange, instrument] (labels, toF64 v)
        = none := by
    intro labels v hne
    match labels with
    | [a, b] =>
      rw [sampleAt_eq he hi name ["exchange", "instrument"] [a, b] a b rfl rfl, if_neg]
      intro h
      exact hne (by rw [h.1, h.2])
    | [] | [_] | _ :: _ :: _ :: _ => rfl
  rw [List.filterMap_map]
  refine (Grouping.filterMap_toList_at hother).trans ?_
  cases g[[exchange, instrument]]? with
  | none => rfl
  | some v =>
    simp only [Option.bind_some, Function.comp_apply]
    rw [sampleAt_eq he hi name ["exchange", "instrument"] [exchange, instrument] exchange
      instrument rfl rfl, if_pos ⟨rfl, rfl⟩]
    rfl

/-- The samples of a depth gauge push its entries. -/
theorem foldl_sampleAt_three {name : String} {s : Side}
    (hput : ∀ m entry, setField name m entry = { entry with
      depth := some (entry.depth.getD [] ++ [{
        price := jsonF64 (((m.get "price").bind parseF64).getD F64.zero)
        volume := jsonF64 m.value, side := s }]) })
    (entries : List (List String × F64)) (entry : MetricsObject) :
    (entries.filterMap (sampleAt name ["exchange", "instrument", "price"]
        [exchange, instrument])).foldl (fun entry sample => sample.put entry) entry
      = entry.push ((entries.filterMap (LobMetrics.depthEntry exchange instrument s)).map
          DepthEntry.item) := by
  induction entries generalizing entry with
  | nil => rfl
  | cons e entries ih =>
    obtain ⟨labels, value⟩ := e
    match labels with
    | [a, b, price] =>
      rw [List.filterMap_cons, List.filterMap_cons,
        sampleAt_eq he hi name ["exchange", "instrument", "price"] [a, b, price] a b rfl rfl]
      simp only [LobMetrics.depthEntry]
      by_cases hlabels : a = exchange ∧ b = instrument
      · simp only [if_pos hlabels]
        rw [List.foldl_cons, ih, Sample.put, hput, List.map_cons, MetricsObject.push_cons]
        rfl
      · simp only [if_neg hlabels]
        exact ih entry
    | [] | [_] | [_, _] | _ :: _ :: _ :: _ :: _ => exact ih entry

/-- What the registry has for an exchange and an instrument, before the `depth` array is sorted. -/
def object (lm : LobMetrics) (exchange instrument : String) : MetricsObject :=
  ({ bestBid := lm.bestBid[[exchange, instrument]]?.map jsonF64
     bestAsk := lm.bestAsk[[exchange, instrument]]?.map jsonF64
     spread := lm.spread[[exchange, instrument]]?.map jsonF64
     lastUpdateTs := lm.lastUpdate[[exchange, instrument]]?.map F64.toU64
     tradesTotal := lm.tradesTotal[[exchange, instrument]]?.map fun n : ℕ => (F64.fin n).toI64 }
    : MetricsObject).push
    ((lm.sideEntries exchange instrument .ask ++ lm.sideEntries exchange instrument .bid).map
      DepthEntry.item)

/-- The samples of the registry make this object. -/
theorem foldl_itemsOf_gather (lm : LobMetrics) :
    (Grouping.itemsOf Sample.key [exchange, instrument]
        (lm.gather.flatMap MetricFamily.samples)).foldl (fun entry sample => sample.put entry) {}
      = object lm exchange instrument := by
  have hempty : ∀ mf : MetricFamily, (!mf.metric.isEmpty) = false → mf.samples = [] := by
    intro mf hmf
    simpa [MetricFamily.samples] using hmf
  have hgauge : ∀ (name : String) (g : GaugeVec),
      g.toList.filterMap (sampleAt name ["exchange", "instrument"] [exchange, instrument])
        = (g[[exchange, instrument]]?.map fun value =>
            (name, { label := [("exchange", exchange), ("instrument", instrument)]
                     value })).toList := by
    intro name g
    have hvector := @filterMap_sampleAt_two _ _ he hi _ name id g
    simpa using hvector
  have htrades := @filterMap_sampleAt_two _ _ he hi _ "trades_total" (fun n : ℕ => .fin n)
    lm.tradesTotal
  rw [LobMetrics.gather, Grouping.flatMap_filter hempty]
  simp only [List.flatMap_cons, List.flatMap_nil, List.append_nil, Grouping.itemsOf_append,
    itemsOf_samples, hgauge, htrades, List.foldl_append]
  simp only [@foldl_sampleAt_three _ _ he hi "lob_depth_ask" .ask fun _ _ => rfl,
    @foldl_sampleAt_three _ _ he hi "lob_depth_bid" .bid fun _ _ => rfl]
  rw [MetricsObject.push_push, ← List.map_append]
  show _ = MetricsObject.push _ ((lm.sideEntries exchange instrument .ask
    ++ lm.sideEntries exchange instrument .bid).map DepthEntry.item)
  -- each of the other gauges has one sample or none
  cases lm.bestAsk[[exchange, instrument]]? <;> cases lm.bestBid[[exchange, instrument]]? <;>
    cases lm.lastUpdate[[exchange, instrument]]? <;> cases lm.spread[[exchange, instrument]]? <;>
    cases lm.tradesTotal[[exchange, instrument]]? <;> rfl

theorem getElem?_metricsBody (lm : LobMetrics) :
    (metricsBody lm.gather)[[exchange, instrument]]?
      = if object lm exchange instrument = {} then none
        else some (sortDepth (object lm exchange instrument)) := by
  have hput : ∀ sample ∈ Grouping.itemsOf Sample.key [exchange, instrument]
      (lm.gather.flatMap MetricFamily.samples), ∀ entry, sample.put entry ≠ {} :=
    fun sample hsample => put_ne_empty (List.mem_filter.mp hsample).1
  have hcell := Grouping.cell_eq_ite hput {}
  rw [if_pos rfl, foldl_itemsOf_gather he hi] at hcell
  rw [metricsBody, Std.ExtTreeMap.getElem?_map, foldl_samples, Grouping.getElem?_gather,
    Std.ExtTreeMap.getElem?_empty, hcell]
  split <;> rfl

end Named

/-! ## The answer -/

/-- Nothing is answered under an empty name. -/
theorem getElem?_metricsBody_unnamed (families : List MetricFamily) {exchange instrument : String}
    (h : exchange = "" ∨ instrument = "") :
    (metricsBody families)[[exchange, instrument]]? = none := by
  have hkey : ∀ sample : Sample, sample.key ≠ some [exchange, instrument] := by
    intro sample
    simp only [Sample.key, Metric.key]
    split
    · simp
    · rename_i hnamed
      intro heq
      obtain ⟨rfl, rfl⟩ : _ = exchange ∧ _ = instrument := by simpa using heq
      exact hnamed h
  rw [metricsBody, Std.ExtTreeMap.getElem?_map, foldl_samples, Grouping.getElem?_gather,
    Std.ExtTreeMap.getElem?_empty, Grouping.itemsOf, List.filter_eq_nil_iff.mpr]
  · rfl
  · intro sample _ heq
    exact hkey sample (by simpa using heq)

/-- Bids come before asks; bids go down and asks go up. -/
def InOrder (a b : DepthItem) : Prop :=
  match a.side, b.side with
  | .bid, .bid => b.price.getD 0 ≤ a.price.getD 0
  | .ask, .ask => a.price.getD 0 ≤ b.price.getD 0
  | .bid, .ask => True
  | .ask, .bid => False

theorem isLE_compareItems (a b : DepthItem) : (compareItems a b).isLE = true ↔ InOrder a b := by
  unfold compareItems InOrder
  cases a.side <;> cases b.side <;> simp [Ordering.isLE_iff_ne_gt, compare_le_iff_le]

/-- The comparison is a total preorder, so the sort puts the array in order. -/
theorem pairwise_sortDepth {entry : MetricsObject} {arr : List DepthItem}
    (h : (sortDepth entry).depth = some arr) : arr.Pairwise InOrder := by
  obtain ⟨items, -, rfl⟩ := Option.map_eq_some_iff.mp h
  have htrans : ∀ a b c : DepthItem, InOrder a b → InOrder b c → InOrder a c := by
    intro a b c
    unfold InOrder
    cases a.side <;> cases b.side <;> cases c.side <;> simp <;> grind
  have htotal : ∀ a b : DepthItem, InOrder a b ∨ InOrder b a := by
    intro a b
    unfold InOrder
    cases a.side <;> cases b.side <;> simp [le_total]
  refine (List.pairwise_mergeSort ?_ ?_ items).imp fun h => (isLE_compareItems _ _).mp h
  · intro a b c hab hbc
    rw [isLE_compareItems] at hab hbc ⊢
    exact htrans a b c hab hbc
  · intro a b
    rw [Bool.or_eq_true, isLE_compareItems, isLE_compareItems]
    exact htotal a b

/-- An entry as the object of the answer. -/
def MetricsEntry.object (e : MetricsEntry) : MetricsObject where
  bestBid := e.bestBid.map jsonF64
  bestAsk := e.bestAsk.map jsonF64
  spread := e.spread.map jsonF64
  lastUpdateTs := e.lastUpdateTs
  tradesTotal := e.tradesTotal.map Int.ofNat
  depth := if e.depth = [] then none else some (e.depth.map DepthEntry.item)

theorem isSome_jsonF64_iff {x : F64} : (jsonF64 x).isSome ↔ ∃ q, x = .fin q := by
  cases x <;> simp [jsonF64]

theorem isLE_compareItems_item {a b : DepthEntry} (ha : (jsonF64 a.price).isSome)
    (hb : (jsonF64 b.price).isSome) :
    (compareItems a.item b.item).isLE = LobMetrics.depthBefore a b := by
  obtain ⟨p, ha⟩ := isSome_jsonF64_iff.mp ha
  obtain ⟨q, hb⟩ := isSome_jsonF64_iff.mp hb
  rw [Bool.eq_iff_iff, isLE_compareItems]
  unfold InOrder LobMetrics.depthBefore
  simp only [DepthEntry.item, ha, hb, jsonF64, Option.getD_some]
  cases a.side <;> cases b.side <;> simp

theorem toI64_natCast {n : ℕ} (h : n < 2 ^ 63) : (F64.fin n).toI64 = n := by
  have hnum : ((n : ℚ).num).tdiv ((n : ℚ).den) = n := by simp
  rw [F64.toI64, hnum]
  omega

/-- The sorted object is the entry, if the counter is in the range of an `i64` and the prices are
numbers. -/
theorem sortDepth_object {lm : LobMetrics} {exchange instrument : String} (he : exchange ≠ "")
    (hi : instrument ≠ "") (hcount : ∀ n ∈ lm.tradesTotal[[exchange, instrument]]?, n < 2 ^ 63)
    (hprices : ∀ s, ∀ e ∈ lm.sideEntries exchange instrument s, (jsonF64 e.price).isSome) :
    sortDepth (object lm exchange instrument) = (lm.entry exchange instrument).object := by
  have hcounter : (lm.tradesTotal[[exchange, instrument]]?.map fun n : ℕ => (F64.fin n).toI64)
      = lm.tradesTotal[[exchange, instrument]]?.map Int.ofNat :=
    Option.map_congr fun n hn => toI64_natCast (hcount n hn)
  rw [LobMetrics.entry, if_neg (by simp [he, hi]), object, hcounter, LobMetrics.depthEntries,
    if_neg (by simp [he, hi])]
  have hfinite : ∀ e ∈ lm.sideEntries exchange instrument .ask
      ++ lm.sideEntries exchange instrument .bid, (jsonF64 e.price).isSome := by
    intro e hmem
    rcases List.mem_append.mp hmem with hside | hside
    · exact hprices _ e hside
    · exact hprices _ e hside
  generalize lm.sideEntries exchange instrument .ask ++ lm.sideEntries exchange instrument .bid
    = entries at hfinite
  have hsort : (entries.mergeSort LobMetrics.depthBefore).map DepthEntry.item
      = (entries.map DepthEntry.item).mergeSort fun a b => (compareItems a b).isLE := by
    refine List.map_mergeSort fun a ha b hb => ?_
    exact (isLE_compareItems_item (hfinite a ha) (hfinite b hb)).symm
  cases entries with
  | nil =>
    rw [List.mergeSort_nil]
    rfl
  | cons e entries =>
    have hne : (e :: entries).mergeSort LobMetrics.depthBefore ≠ [] := by
      rw [← List.length_pos_iff, List.length_mergeSort]
      exact Nat.succ_pos _
    rw [MetricsEntry.object, if_neg hne, hsort]
    rfl

theorem sortDepth_eq_empty {entry : MetricsObject} : sortDepth entry = {} ↔ entry = {} := by
  obtain ⟨_, _, _, _, _, depth⟩ := entry
  cases depth <;> simp [sortDepth]

theorem MetricsEntry.object_eq_empty {e : MetricsEntry} : e.object = {} ↔ e = {} := by
  obtain ⟨_, _, _, _, _, depth⟩ := e
  cases depth <;> simp [MetricsEntry.object]

/-- **The answer of `/metrics`.** Whatever else the registry holds, the handler answers for an
exchange and an instrument with their own entry, and with nothing if they have none, as long as
their count is below `2 ^ 63` and their depth labels are numbers. Bids stand before asks, the bids
from the highest on, the asks from the lowest. -/
theorem metricsBody_gather (lm : LobMetrics) (exchange instrument : String)
    (hcount : ∀ n ∈ lm.tradesTotal[[exchange, instrument]]?, n < 2 ^ 63)
    (hprices : ∀ s, ∀ e ∈ lm.sideEntries exchange instrument s, (jsonF64 e.price).isSome) :
    ((metricsBody lm.gather)[[exchange, instrument]]?
        = if lm.entry exchange instrument = {} then none
          else some (lm.entry exchange instrument).object) ∧
      ∀ entry ∈ (metricsBody lm.gather)[[exchange, instrument]]?, ∀ arr ∈ entry.depth,
        arr.Pairwise InOrder := by
  by_cases hnamed : exchange = "" ∨ instrument = ""
  · rw [getElem?_metricsBody_unnamed _ hnamed, LobMetrics.entry, if_pos hnamed, if_pos rfl]
    exact ⟨rfl, fun _ h => by cases h⟩
  · rw [not_or] at hnamed
    obtain ⟨he, hi⟩ := hnamed
    have hsorted := sortDepth_object he hi hcount hprices
    have hempty : object lm exchange instrument = {} ↔ lm.entry exchange instrument = {} := by
      rw [← sortDepth_eq_empty, hsorted, MetricsEntry.object_eq_empty]
    rw [getElem?_metricsBody he hi, ← hsorted]
    refine ⟨by simp only [hempty], ?_⟩
    intro entry hentry arr harr
    split at hentry
    · cases hentry
    · obtain rfl := Option.some.inj hentry
      exact pairwise_sortDepth harr

/-- One bid level and two trades of one instrument, one ask level of another. -/
def twoInstruments : LobMetrics where
  bestBid := (∅ : GaugeVec).insert ["okx", "btcusdt"] (.fin 100)
  lobDepthBid := (∅ : GaugeVec).insert ["okx", "btcusdt", "100.00"] (.fin 2)
  lobDepthAsk := (∅ : GaugeVec).insert ["kraken", "ethusd", "50.00"] (.fin 3)
  tradesTotal := (∅ : IntGaugeVec).insert ["okx", "btcusdt"] 2

theorem metricsBody_gather_twoInstruments :
    ((metricsBody twoInstruments.gather)[["okx", "btcusdt"]]?
        = if twoInstruments.entry "okx" "btcusdt" = {} then none
          else some (twoInstruments.entry "okx" "btcusdt").object) ∧
      ∀ entry ∈ (metricsBody twoInstruments.gather)[["okx", "btcusdt"]]?,
        ∀ arr ∈ entry.depth, arr.Pairwise InOrder :=
  metricsBody_gather twoInstruments "okx" "btcusdt" (by decide +kernel) (by decide +kernel)

end Cryptomeria
