import Cryptomeria.Client.Depth
import Cryptomeria.Num.Decimal

/-!
# One depth entry for each level

The price of a level becomes a label with two decimals, and `/metrics` reads the label back. On a
fresh registry the `depth` array lists the levels of the book if and only if the label tells the
price of each (`depth_entries_iff`): other prices are shown rounded, and levels whose labels are the
same have one entry between them.
-/

set_option autoImplicit false

namespace Cryptomeria

/-- A number, no infinity and not NaN. -/
def F64.IsFinite : F64 → Prop
  | .fin _ => True
  | _ => False

/-- An entry for each level of the book, bids first. -/
def OrderBook.levelEntries (b : OrderBook) : List DepthEntry :=
  b.bids.toList.map (fun (price, volume) => { price, volume, side := .bid }) ++
    b.asks.toList.map fun (price, volume) => { price, volume, side := .ask }

namespace World

/-- The `depth` array has the levels of the book, each once and nothing else. JSON has numbers
only: `serde_json` writes null for any other value. -/
structure ListsLevels (cfg : Config) (w : World) (b : OrderBook) : Prop where
  entries : (w.metrics.depthEntries cfg.exchange cfg.cliInstrument).Perm b.levelEntries
  numbers : ∀ e ∈ w.metrics.depthEntries cfg.exchange cfg.cliInstrument,
    e.price.IsFinite ∧ e.volume.IsFinite

/-- No gauge of the client's exchange and instrument is set. -/
def NoDepth (cfg : Config) (w : World) : Prop :=
  ∀ s label, [cfg.exchange, cfg.cliInstrument, label] ∉ w.metrics.depth s

end World

theorem OrderBook.mem_levelEntries {b : OrderBook} {e : DepthEntry} :
    e ∈ b.levelEntries ↔ (b.side e.side)[e.price]? = some e.volume := by
  obtain ⟨p, v, s⟩ := e
  cases s <;>
    simp [levelEntries, OrderBook.side, Std.ExtTreeMap.mem_toList_iff_getElem?_eq_some]

theorem OrderBook.nodup_levelEntries (b : OrderBook) : b.levelEntries.Nodup := by
  have hside : ∀ s, ((b.side s).toList.map fun l =>
      ({ price := l.1, volume := l.2, side := s } : DepthEntry)).Nodup := by
    intro s
    rw [List.Nodup, List.pairwise_map]
    refine (b.side s).distinct_keys_toList.imp fun {l l'} hne heq => hne ?_
    rw [DepthEntry.mk.injEq] at heq
    rw [heq.1]
    exact Std.ReflCmp.compare_self
  rw [levelEntries, List.nodup_append]
  refine ⟨hside .bid, hside .ask, ?_⟩
  intro e he e' he' heq
  obtain ⟨l, -, rfl⟩ := List.mem_map.mp he
  obtain ⟨l', -, rfl⟩ := List.mem_map.mp he'
  simp at heq

/-! ## The entries of the gauges -/

namespace LobMetrics

variable {lm : LobMetrics} {exchange instrument : String}

/-- Where no two labels of a side are read back alike, no entry is listed twice. -/
theorem nodup_depthEntries
    (h : ∀ s label label', [exchange, instrument, label] ∈ lm.depth s →
      [exchange, instrument, label'] ∈ lm.depth s →
      (parseF64 label).getD F64.zero = (parseF64 label').getD F64.zero → label = label') :
    (lm.depthEntries exchange instrument).Nodup := by
  have hmem : ∀ {s : Side} {labels : List String} {value : F64},
      (labels, value) ∈ (lm.depth s).toList → labels ∈ lm.depth s := fun hlabels => by
    rw [Std.ExtTreeMap.mem_toList_iff_getElem?_eq_some] at hlabels
    exact Std.ExtTreeMap.mem_iff_isSome_getElem?.mpr (by rw [hlabels]; rfl)
  have hside : ∀ s, (lm.sideEntries exchange instrument s).Nodup := by
    intro s
    rw [sideEntries, List.Nodup, List.pairwise_filterMap]
    refine (lm.depth s).distinct_keys_toList.imp_of_mem fun {kv kv'} hkv hkv' hne e he e' he' => ?_
    rintro rfl
    obtain ⟨label, hlabel, rfl⟩ := depthEntry_eq_some_iff.mp he
    obtain ⟨label', hlabel', heq⟩ := depthEntry_eq_some_iff.mp he'
    -- two gauges with one entry have one label, so they are the same gauge
    rw [hlabel, hlabel', h s label label' (hlabel ▸ hmem hkv) (hlabel' ▸ hmem hkv')
      (DepthEntry.mk.inj heq).1] at hne
    exact hne Std.ReflCmp.compare_self
  rw [depthEntries]
  split
  · exact List.nodup_nil
  · rw [(List.mergeSort_perm _ _).nodup_iff, List.nodup_append]
    refine ⟨hside .ask, hside .bid, ?_⟩
    rintro e he e' he' rfl
    obtain ⟨_, _, -, rfl⟩ := mem_sideEntries.mp he
    obtain ⟨_, _, -, hbid⟩ := mem_sideEntries.mp he'
    simp at hbid

end LobMetrics

namespace World

variable {cfg : Config} {w : World} {b : OrderBook}

theorem getElem?_setDepthLevels {g : GaugeVec} {levels : List (F64 × F64)} {label : String}
    {v : F64} (hlabels : levels.Pairwise fun l l' => formatFixed 2 l.1 ≠ formatFixed 2 l'.1)
    (hfresh : [cfg.exchange, cfg.cliInstrument, label] ∉ g) :
    (setDepthLevels cfg g levels)[[cfg.exchange, cfg.cliInstrument, label]]? = some v ↔
      ∃ p, (p, v) ∈ levels ∧ formatFixed 2 p = label := by
  unfold setDepthLevels
  induction levels using List.reverseRecOn with
  | nil => simp [Std.ExtTreeMap.getElem?_eq_none hfresh]
  | append_singleton levels l ih =>
    obtain ⟨hbefore, -, hlast⟩ := List.pairwise_append.mp hlabels
    have hkey : compare (depthLabels cfg l.1) [cfg.exchange, cfg.cliInstrument, label] = .eq ↔
        formatFixed 2 l.1 = label := by
      rw [Std.LawfulEqCmp.compare_eq_iff_eq, depthLabels]
      simp
    rw [List.foldl_concat, Std.ExtTreeMap.getElem?_insert]
    by_cases hlabel : formatFixed 2 l.1 = label
    · rw [if_pos (hkey.mpr hlabel), Option.some_inj]
      constructor
      · rintro rfl
        exact ⟨l.1, by simp, hlabel⟩
      · rintro ⟨p, hp, hp'⟩
        rcases List.mem_append.mp hp with hp | hp
        · -- an earlier level has another label
          exact absurd (hp'.trans hlabel.symm) (hlast _ hp l (by simp))
        · rw [← List.mem_singleton.mp hp]
    · rw [if_neg (mt hkey.mp hlabel), ih hbefore]
      constructor
      · rintro ⟨p, hp, hp'⟩
        exact ⟨p, List.mem_append_left _ hp, hp'⟩
      · rintro ⟨p, hp, hp'⟩
        rcases List.mem_append.mp hp with hp | hp
        · exact ⟨p, hp, hp'⟩
        · rw [← List.mem_singleton.mp hp] at hlabel
          exact absurd hp' hlabel

theorem depth_updateDepthMetrics (b : OrderBook) (w : World) (s : Side) :
    (w.updateDepthMetrics cfg b).metrics.depth s
      = setDepthLevels cfg (w.metrics.depth s) (b.side s).toList := by
  cases s <;> rfl

/-- The labels of the client after the update are those of the levels. -/
theorem exists_level (hfresh : w.NoDepth cfg) {s : Side} {label : String}
    (h : [cfg.exchange, cfg.cliInstrument, label] ∈ (w.updateDepthMetrics cfg b).metrics.depth s) :
    ∃ p v, (b.side s)[p]? = some v ∧ formatFixed 2 p = label := by
  rw [depth_updateDepthMetrics, mem_setDepthLevels] at h
  rcases h with h | ⟨⟨p, v⟩, hmem, hlabel⟩
  · exact absurd h (hfresh s label)
  · refine ⟨p, v, Std.ExtTreeMap.mem_toList_iff_getElem?_eq_some.mp hmem, ?_⟩
    simpa [depthLabels] using hlabel

theorem hasDecimals_shownPrice (p : F64) : HasDecimals 2 (shownPrice p) := by
  rw [shownPrice]
  cases p with
  | fin q =>
    rw [parseF64_formatFixed]
    exact hasDecimals_rounded 2 q
  | negInf =>
    rw [(@parseF64_formatFixed_eq_iff 2 .negInf).mpr trivial]
    trivial
  | posInf =>
    rw [(@parseF64_formatFixed_eq_iff 2 .posInf).mpr trivial]
    trivial
  | nan =>
    rw [(@parseF64_formatFixed_eq_iff 2 .nan).mpr trivial]
    trivial

/-- The label of every price is read back as the price. -/
def LabelsTell (b : OrderBook) : Prop :=
  ∀ s p v, (b.side s)[p]? = some v → parseF64 (formatFixed 2 p) = some p

theorem mem_depthEntries_of_labelsTell (hn : cfg.Named) (hfresh : w.NoDepth cfg)
    (hlabels : LabelsTell b) {e : DepthEntry} :
    e ∈ (w.updateDepthMetrics cfg b).metrics.depthEntries cfg.exchange cfg.cliInstrument ↔
      e ∈ b.levelEntries := by
  have hdistinct : ∀ s, (b.side s).toList.Pairwise fun l l' =>
      formatFixed 2 l.1 ≠ formatFixed 2 l'.1 := by
    intro s
    refine (b.side s).distinct_keys_toList.imp_of_mem fun {l l'} hl hl' hne heq => hne ?_
    have htell := hlabels s _ _ (Std.ExtTreeMap.mem_toList_iff_getElem?_eq_some.mp hl)
    have htell' := hlabels s _ _ (Std.ExtTreeMap.mem_toList_iff_getElem?_eq_some.mp hl')
    rw [heq, htell', Option.some_inj] at htell
    rw [htell]
    exact Std.ReflCmp.compare_self
  rw [LobMetrics.mem_depthEntries hn.1 hn.2, OrderBook.mem_levelEntries]
  simp only [depth_updateDepthMetrics, getElem?_setDepthLevels (hdistinct e.side) (hfresh e.side _),
    Std.ExtTreeMap.mem_toList_iff_getElem?_eq_some]
  constructor
  · rintro ⟨label, v, ⟨p, hp, rfl⟩, hprice, rfl⟩
    rw [hlabels _ _ _ hp, Option.getD_some] at hprice
    rw [hprice]
    exact hp
  · intro he
    exact ⟨_, _, ⟨_, he, rfl⟩, by rw [hlabels _ _ _ he, Option.getD_some], rfl⟩

theorem nodup_depthEntries_of_labelsTell (hfresh : w.NoDepth cfg) (hlabels : LabelsTell b) :
    ((w.updateDepthMetrics cfg b).metrics.depthEntries cfg.exchange cfg.cliInstrument).Nodup := by
  refine LobMetrics.nodup_depthEntries fun s label label' h h' heq => ?_
  obtain ⟨p, v, hp, rfl⟩ := exists_level hfresh h
  obtain ⟨p', v', hp', rfl⟩ := exists_level hfresh h'
  rw [hlabels _ _ _ hp, hlabels _ _ _ hp', Option.getD_some, Option.getD_some] at heq
  rw [heq]

end World

/-- **When every level has its own entry.** On a registry without the client's gauges, the `depth`
array lists the levels of the book, each once and nothing else, if and only if prices and sizes are
finite, no price has more than two decimals, and the client has an exchange and an instrument. -/
theorem depth_entries_iff (cfg : Config) (w : World) (hfresh : w.NoDepth cfg) (b : OrderBook) :
    (w.updateDepthMetrics cfg b).ListsLevels cfg b ↔
      ∀ s p v, (b.side s)[p]? = some v →
        cfg.Named ∧ p.IsFinite ∧ v.IsFinite ∧ HasDecimals 2 p := by
  constructor
  · rintro ⟨hentries, hnumbers⟩ s p v hp
    have hmem : (⟨p, v, s⟩ : DepthEntry) ∈
        (w.updateDepthMetrics cfg b).metrics.depthEntries cfg.exchange cfg.cliInstrument :=
      hentries.mem_iff.mpr (OrderBook.mem_levelEntries.mpr hp)
    have hn : cfg.Named := by
      by_contra hn
      exact World.not_reports hn ⟨_, hmem, rfl, rfl⟩
    obtain ⟨hprice, hvolume⟩ := hnumbers _ hmem
    refine ⟨hn, hprice, hvolume, ?_⟩
    -- the price is some label, read back
    obtain ⟨label, v', hv', hlabel, -⟩ := (LobMetrics.mem_depthEntries hn.1 hn.2).mp hmem
    obtain ⟨p', -, -, rfl⟩ := World.exists_level hfresh
      (Std.ExtTreeMap.mem_iff_isSome_getElem?.mpr (by rw [hv']; rfl))
    rw [show p = shownPrice p' from hlabel]
    exact World.hasDecimals_shownPrice p'
  · intro h
    have hlabels : World.LabelsTell b := fun s p v hp =>
      parseF64_formatFixed_eq_iff.mpr (h s p v hp).2.2.2
    have hnodup := World.nodup_depthEntries_of_labelsTell hfresh hlabels
    have hmem : ∀ e, e ∈ (w.updateDepthMetrics cfg b).metrics.depthEntries cfg.exchange
        cfg.cliInstrument ↔ e ∈ b.levelEntries := by
      intro e
      by_cases hn : cfg.Named
      · exact World.mem_depthEntries_of_labelsTell hn hfresh hlabels
      · refine iff_of_false (fun he => World.not_reports hn ⟨e, he, rfl, rfl⟩) fun he => hn ?_
        exact (h _ _ _ (OrderBook.mem_levelEntries.mp he)).1
    refine ⟨(List.perm_ext_iff_of_nodup hnodup b.nodup_levelEntries).mpr hmem, fun e he => ?_⟩
    obtain ⟨-, hprice, hvolume, -⟩ := h _ _ _ (OrderBook.mem_levelEntries.mp ((hmem e).mp he))
    exact ⟨hprice, hvolume⟩

/-- A book with these bids and no asks. -/
def bidsBook (bids : List (F64 × F64)) : OrderBook := { bids := .ofList bids _ }

theorem depth_entries_iff_twoDecimals :
    (World.updateDepthMetrics okxConfig (bidsBook [(.fin 100.25, .fin 1)]) {}).ListsLevels okxConfig
        (bidsBook [(.fin 100.25, .fin 1)]) ↔
      ∀ s p v, ((bidsBook [(.fin 100.25, .fin 1)]).side s)[p]? = some v →
        okxConfig.Named ∧ p.IsFinite ∧ v.IsFinite ∧ HasDecimals 2 p :=
  depth_entries_iff okxConfig {} (fun s label => by cases s <;> simp [LobMetrics.depth]) _

/-- Two bids below a cent are one entry, with price 0. -/
theorem depth_entries_merged :
    ¬ ∀ (cfg : Config) (w : World), w.NoDepth cfg → ∀ b : OrderBook,
      (w.updateDepthMetrics cfg b).ListsLevels cfg b := by
  intro h
  have hlist := h okxConfig {} (fun s label => by cases s <;> simp [LobMetrics.depth])
    (bidsBook [(.fin 0.001, .fin 1), (.fin 0.002, .fin 2)])
  exact absurd hlist.entries.length_eq (by decide +kernel)

end Cryptomeria
