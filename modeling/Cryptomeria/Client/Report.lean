import Cryptomeria.Client.Shared
import Cryptomeria.Lib.WriteLog

/-!
# What the endpoints report for one client

An update goes to the entry of its client in the status map and to the gauges with its labels. What
stands there is the client's `Slice`. Own updates act on the slice alone (`Shared.slice_apply_own`),
those of a client with another status key do not touch it (`Shared.slice_apply_other`), and all that
`/status` and `/metrics` show for the client is read from it (`Shared.report_congr`).
-/

set_option autoImplicit false

namespace Cryptomeria

/-! ## The entries of one client -/

/-- What stands under one exchange and instrument. -/
@[ext] structure Slice where
  status : Option ClientStatus
  gauge : Gauge → Option F64
  tradesTotal : Option ℕ
  depth : Side → String → Option F64

/-- What an update does to the entries that it goes to. -/
def Slice.apply (sl : Slice) : Update → Slice
  | .status st => { sl with status := some st }
  | .sizes now bidSize askSize =>
    { sl with status := sl.status.map fun st => { st with bidSize, askSize, ts := now } }
  | .lastPrice now price =>
    { sl with status := sl.status.map fun st => { st with lastPrice := some price, ts := now } }
  | .gauge g value => { sl with gauge := Function.update sl.gauge g (some value) }
  | .depth s price size =>
    { sl with
      depth := Function.update sl.depth s
        (Function.update (sl.depth s) (formatFixed 2 price) (some size)) }
  | .trade => { sl with tradesTotal := some (sl.tradesTotal.getD 0 + 1) }

namespace Shared

def slice (exchange instrument : String) (sh : Shared) : Slice where
  status := sh.status[instrument ++ "@" ++ exchange]?
  gauge g := (sh.metrics.gauge g)[[exchange, instrument]]?
  tradesTotal := sh.metrics.tradesTotal[[exchange, instrument]]?
  depth s price := (sh.metrics.depth s)[[exchange, instrument, price]]?

theorem slice_modifyStatus_own (cfg : Config) (f : ClientStatus → ClientStatus) (sh : Shared) :
    (sh.modifyStatus cfg f).slice cfg.exchange cfg.cliInstrument
      = { sh.slice cfg.exchange cfg.cliInstrument with
          status := (sh.slice cfg.exchange cfg.cliInstrument).status.map f } := by
  have hkey : World.statusKey cfg = cfg.cliInstrument ++ "@" ++ cfg.exchange := rfl
  unfold modifyStatus
  cases h : sh.status[World.statusKey cfg]? with
  | none =>
    rw [hkey] at h
    simp [slice, h]
  | some st =>
    rw [hkey] at h
    simp [slice, h, hkey]

/-- An update does to the slice of its own client what `Slice.apply` says. -/
theorem slice_apply_own (cfg : Config) (sh : Shared) (up : Update) :
    (sh.apply cfg up).slice cfg.exchange cfg.cliInstrument
      = (sh.slice cfg.exchange cfg.cliInstrument).apply up := by
  cases up with
  | status st => simp [apply, Slice.apply, slice, World.statusKey]
  | sizes | lastPrice => exact slice_modifyStatus_own cfg _ sh
  | trade =>
    ext1
    · rfl
    · funext g
      cases g <;> rfl
    · simp [apply, Slice.apply, slice, IntGaugeVec.inc, Config.labels]
    · funext s price
      cases s <;> rfl
  | gauge g value =>
    ext1
    · rfl
    · funext g'
      simp only [apply, Slice.apply, slice, LobMetrics.gauge_setGauge, Config.labels]
      by_cases hg : g = g'
      · subst hg
        simp
      · simp [hg, Function.update_of_ne (Ne.symm hg)]
    · simp [apply, Slice.apply, slice]
    · simp [apply, Slice.apply, slice]
  | depth s price size =>
    ext1
    · rfl
    · simp [apply, Slice.apply, slice]
    · simp [apply, Slice.apply, slice]
    · funext s' label
      simp only [apply, Slice.apply, slice, LobMetrics.depth_setDepth, World.depthLabels]
      by_cases hs : s = s'
      · subst hs
        simp [Std.ExtTreeMap.getElem?_insert, Function.update_apply, eq_comm (b := label)]
      · simp [hs, Function.update_of_ne (Ne.symm hs)]

section Other

variable {cfg : Config} {exchange instrument : String}
  (hkey : World.statusKey cfg ≠ instrument ++ "@" ++ exchange)
include hkey

theorem labels_ne : cfg.labels ≠ [exchange, instrument] := by
  intro h
  simp only [Config.labels, List.cons.injEq, and_true] at h
  exact hkey (by rw [World.statusKey, h.1, h.2])

theorem depthLabels_ne (price : F64) (label : String) :
    World.depthLabels cfg price ≠ [exchange, instrument, label] := by
  intro h
  simp only [World.depthLabels, List.cons.injEq, and_true] at h
  exact hkey (by rw [World.statusKey, h.1, h.2.1])

theorem slice_modifyStatus_other (f : ClientStatus → ClientStatus) (sh : Shared) :
    (sh.modifyStatus cfg f).slice exchange instrument = sh.slice exchange instrument := by
  unfold modifyStatus
  split
  · simp [slice, Std.ExtTreeMap.getElem?_insert, hkey]
  · rfl

/-- Under another status key there are also other labels, so nothing of the slice changes. -/
theorem slice_apply_other (sh : Shared) (up : Update) :
    (sh.apply cfg up).slice exchange instrument = sh.slice exchange instrument := by
  have hlabels : cfg.labels ≠ [exchange, instrument] := labels_ne hkey
  cases up with
  | status st => simp [apply, slice, Std.ExtTreeMap.getElem?_insert, hkey]
  | sizes | lastPrice => exact slice_modifyStatus_other hkey _ sh
  | trade =>
    ext1
    · rfl
    · funext g
      cases g <;> rfl
    · simp [apply, slice, IntGaugeVec.inc, Std.ExtTreeMap.getElem?_insert, hlabels]
    · funext s price
      cases s <;> rfl
  | gauge g value =>
    ext1
    · rfl
    · funext g'
      simp only [apply, slice, LobMetrics.gauge_setGauge]
      split
      · simp [Std.ExtTreeMap.getElem?_insert, hlabels]
      · rfl
    · simp [apply, slice]
    · simp [apply, slice]
  | depth s price size =>
    ext1
    · rfl
    · simp [apply, slice]
    · simp [apply, slice]
    · funext s' label
      simp only [apply, slice, LobMetrics.depth_setDepth]
      split
      · simp [Std.ExtTreeMap.getElem?_insert, depthLabels_ne hkey price label]
      · rfl

end Other

end Shared

/-! ## What the endpoints report -/

/-- The object of `/metrics` for one exchange and instrument; a field that is `none` and an empty
`depth` are not there. -/
structure MetricsEntry where
  bestBid : Option F64 := none
  bestAsk : Option F64 := none
  spread : Option F64 := none
  lastUpdateTs : Option ℕ := none
  tradesTotal : Option ℕ := none
  depth : List DepthEntry := []
deriving DecidableEq

/-- Metrics with an empty exchange or instrument label are skipped. -/
def LobMetrics.entry (lm : LobMetrics) (exchange instrument : String) : MetricsEntry :=
  if exchange = "" ∨ instrument = "" then {}
  else
    { bestBid := lm.bestBid[[exchange, instrument]]?
      bestAsk := lm.bestAsk[[exchange, instrument]]?
      spread := lm.spread[[exchange, instrument]]?
      lastUpdateTs := lm.lastUpdate[[exchange, instrument]]?.map F64.toU64
      tradesTotal := lm.tradesTotal[[exchange, instrument]]?
      depth := lm.depthEntries exchange instrument }

/-- What `/status` and `/metrics` show for one exchange and instrument. -/
structure Report where
  status : Option ClientStatus
  metrics : MetricsEntry

namespace Shared

def report (exchange instrument : String) (sh : Shared) : Report where
  status := sh.status[instrument ++ "@" ++ exchange]?
  metrics := sh.metrics.entry exchange instrument

theorem sideEntries_congr {lm lm' : LobMetrics} {exchange instrument : String} {s : Side}
    (h : ∀ price, (lm.depth s)[[exchange, instrument, price]]?
      = (lm'.depth s)[[exchange, instrument, price]]?) :
    lm.sideEntries exchange instrument s = lm'.sideEntries exchange instrument s := by
  refine WriteLog.filterMap_toList_congr fun labels v hkept => ?_
  obtain ⟨e, he⟩ := Option.isSome_iff_exists.mp hkept
  obtain ⟨price, rfl, -⟩ := LobMetrics.depthEntry_eq_some_iff.mp he
  exact h price

/-- Everything that is reported stands in the slice. -/
theorem report_congr {sh sh' : Shared} {exchange instrument : String}
    (h : sh.slice exchange instrument = sh'.slice exchange instrument) :
    sh.report exchange instrument = sh'.report exchange instrument := by
  obtain ⟨hstatus, hgauge, htrades, hdepth⟩ := Slice.mk.inj h
  have hside : ∀ s, sh.metrics.sideEntries exchange instrument s
      = sh'.metrics.sideEntries exchange instrument s :=
    fun s => sideEntries_congr fun price => congrFun (congrFun hdepth s) price
  have hbid := congrFun hgauge .bestBid
  have hask := congrFun hgauge .bestAsk
  have hspread := congrFun hgauge .spread
  have hlast := congrFun hgauge .lastUpdate
  simp only [LobMetrics.gauge] at hbid hask hspread hlast
  simp only [report, LobMetrics.entry, LobMetrics.depthEntries, hstatus, hbid, hask, hspread,
    hlast, htrades, hside]

end Shared

end Cryptomeria
