import Cryptomeria.Lob.Model

/-!
# The snapshots of OKX and Kraken

Which levels `filter_snapshot_levels` keeps, and when it keeps none. With these facts the shared
algorithm is a `BookModel` for any kind of raw level (`Lob.model`).
-/

set_option autoImplicit false

namespace Cryptomeria
namespace Lob

open WriteLog

variable {L : Type} {view parse : L → Option (F64 × F64)}

/-! ## The best price of a batch -/

/-- One turn of the loop of `findBestPrice`. -/
def betterOf (view : L → Option (F64 × F64)) (s : Side) (best : Option F64) (level : L) :
    Option F64 :=
  match view level with
  | some (price, _) => if best.all fun b => s.beats price b then some price else best
  | none => best

/-- A turn reads no price, takes the one it reads, or keeps one that it does not beat. -/
theorem betterOf_cases (s : Side) (best : Option F64) (l : L) :
    (view l = none ∧ betterOf view s best l = best) ∨
    (∃ e, view l = some e ∧ (∀ b ∈ best, s.beats e.1 b = true) ∧
      betterOf view s best l = some e.1) ∨
    ∃ e b, view l = some e ∧ best = some b ∧ s.beats e.1 b = false ∧
      betterOf view s best l = some b := by
  unfold betterOf
  cases hv : view l with
  | none => exact Or.inl ⟨rfl, rfl⟩
  | some e =>
    cases best with
    | none => exact Or.inr (Or.inl ⟨e, rfl, by simp, rfl⟩)
    | some b =>
      cases hb : s.beats e.1 b with
      | true => exact Or.inr (Or.inl ⟨e, rfl, by simpa using hb, by simp [hb]⟩)
      | false => exact Or.inr (Or.inr ⟨e, b, rfl, rfl, hb, by simp [hb]⟩)

theorem findBestPrice_loop (s : Side) (levels : List L) (best : Option F64) :
    (∀ p, levels.foldl (betterOf view s) best = some p →
      best = some p ∨ ∃ l ∈ levels, ∃ a, view l = some (p, a)) ∧
    (levels.foldl (betterOf view s) best = none → best = none ∧ ∀ l ∈ levels, view l = none) := by
  induction levels generalizing best with
  | nil => simp
  | cons l ls ih =>
    rw [List.foldl_cons]
    have hrest : ∀ {p : F64}, (∃ l' ∈ ls, ∃ a, view l' = some (p, a)) →
        ∃ l' ∈ l :: ls, ∃ a, view l' = some (p, a) := by
      rintro p ⟨l', hl', h⟩
      exact ⟨l', List.mem_cons_of_mem _ hl', h⟩
    rcases @betterOf_cases _ view s best l with
      ⟨hv, hr⟩ | ⟨e, hv, -, hr⟩ | ⟨e, b, hv, rfl, -, hr⟩
    · rw [hr]
      refine ⟨fun p hp => ((ih best).1 p hp).imp_right hrest, fun hp => ?_⟩
      exact ⟨((ih best).2 hp).1, List.forall_mem_cons.mpr ⟨hv, ((ih best).2 hp).2⟩⟩
    · rw [hr]
      refine ⟨fun p hp => Or.inr ?_, fun hp => absurd ((ih _).2 hp).1 (by simp)⟩
      rcases (ih _).1 p hp with h | h
      · obtain rfl := Option.some.inj h
        exact ⟨l, List.mem_cons_self, e.2, hv⟩
      · exact hrest h
    · rw [hr]
      exact ⟨fun p hp => ((ih _).1 p hp).imp_right hrest,
        fun hp => absurd ((ih _).2 hp).1 (by simp)⟩

theorem exists_of_findBestPrice {s : Side} {levels : List L} {p : F64}
    (h : findBestPrice view levels s = some p) : ∃ l ∈ levels, ∃ a, view l = some (p, a) := by
  rcases (findBestPrice_loop s levels none).1 p h with h | h
  · simp at h
  · exact h

theorem view_none_of_findBestPrice {s : Side} {levels : List L}
    (h : findBestPrice view levels s = none) : ∀ l ∈ levels, view l = none :=
  ((findBestPrice_loop s levels none).2 h).2

/-! ## What the snapshot filters keep -/

/-- The levels `MaxLevel` sorts and cuts: positive, with their readings. -/
def positiveLevels (view : L → Option (F64 × F64)) (levels : List L) : List (F64 × F64 × L) :=
  (levels.filterMap fun level =>
    (view level).map fun (price, amount) => (price, amount, level)).filter
      fun (_, amount, _) => amount.gt F64.zero

theorem mem_positiveLevels {levels : List L} {price amount : F64} {l : L} :
    (price, amount, l) ∈ positiveLevels view levels
      ↔ l ∈ levels ∧ view l = some (price, amount) ∧ amount.gt F64.zero = true := by
  simp only [positiveLevels, List.mem_filter, List.mem_filterMap, Option.map_eq_some_iff]
  constructor
  · rintro ⟨⟨l', hl', e, he, heq⟩, hpos⟩
    obtain ⟨p, a⟩ := e
    simp only [Prod.mk.injEq] at heq
    obtain ⟨rfl, rfl, rfl⟩ := heq
    exact ⟨hl', he, hpos⟩
  · rintro ⟨hl, hv, hpos⟩
    exact ⟨⟨l, hl, (price, amount), hv, rfl⟩, hpos⟩

theorem filterSnapshotLevels_maxLevel (b : OrderBook) (levels : List L) (s : Side) (n : ℕ)
    (best : Option F64) :
    filterSnapshotLevels view b levels s (.maxLevel n) best
      = (((positiveLevels view levels).mergeSort fun x y => !s.beats y.1 x.1).take n).map
          fun (_, _, level) => level := rfl

theorem filterSnapshotLevels_subset (b : OrderBook) (levels : List L) (s : Side) (f : LobFilter)
    (best : Option F64) : filterSnapshotLevels view b levels s f best ⊆ levels := by
  cases f with
  | maxLevelPct pct ar => exact List.filter_sublist.subset
  | maxLevel n =>
    rw [filterSnapshotLevels_maxLevel]
    intro l hl
    obtain ⟨⟨price, amount, l'⟩, hmem, rfl⟩ := List.mem_map.mp hl
    have hsorted := List.mem_mergeSort.mp (List.mem_of_mem_take hmem)
    exact (mem_positiveLevels.mp hsorted).1

theorem length_filterSnapshotLevels_maxLevel (b : OrderBook) (levels : List L) (s : Side) (n : ℕ)
    (best : Option F64) :
    (filterSnapshotLevels view b levels s (.maxLevel n) best).length ≤ n := by
  rw [filterSnapshotLevels_maxLevel, List.length_map]
  exact List.length_take_le _ _

theorem filterSnapshotLevels_maxLevel_eq_nil {b : OrderBook} {levels : List L} {s : Side} {n : ℕ}
    {best : Option F64} :
    filterSnapshotLevels view b levels s (.maxLevel n) best = [] ↔
      n = 0 ∨ ∀ l ∈ levels, ∀ e, view l = some e → e.2.gt F64.zero = false := by
  rw [filterSnapshotLevels_maxLevel, List.map_eq_nil_iff, List.take_eq_nil_iff]
  have hsort : ((positiveLevels view levels).mergeSort fun x y => !s.beats y.1 x.1) = []
      ↔ positiveLevels view levels = [] := by
    rw [← List.length_eq_zero_iff, List.length_mergeSort, List.length_eq_zero_iff]
  rw [hsort, List.eq_nil_iff_forall_not_mem]
  refine or_congr_right ⟨?_, ?_⟩
  · intro hnone l hl e he
    by_contra hpos
    exact hnone (e.1, e.2, l) (mem_positiveLevels.mpr ⟨hl, he, by simpa using hpos⟩)
  · rintro hnone ⟨price, amount, l⟩ hmem
    obtain ⟨hl, hv, hpos⟩ := mem_positiveLevels.mp hmem
    have := hnone l hl _ hv
    simp [hpos] at this

/-- Under `MaxLevelPct` a level of the batch stays when it is a removal, cannot be read, or is in
the window of the best price of the batch. -/
theorem filterSnapshotLevels_maxLevelPct_eq_nil {b : OrderBook} {levels : List L} {s : Side}
    {pct : F64} {ar : Arithmetic} :
    filterSnapshotLevels view b levels s (.maxLevelPct pct ar) (findBestPrice view levels s) = [] ↔
      ∀ l ∈ levels, ∃ e best, view l = some e ∧ findBestPrice view levels s = some best ∧
        e.2.eq F64.zero = false ∧ s.inWindow ar pct best e.1 = false := by
  simp only [filterSnapshotLevels, List.filter_eq_nil_iff]
  refine forall₂_congr fun l hl => ?_
  cases hv : view l with
  | none => simp
  | some e =>
    cases hbest : findBestPrice view levels s with
    | none => exact absurd (view_none_of_findBestPrice hbest l hl) (by simp [hv])
    | some best =>
      cases hz : e.2.eq F64.zero <;> cases s <;>
        simp [LobFilter.shouldInclude, hz, Side.inWindow, Side.within, Side.threshold]

/-! ## The two books as models -/

section Model

theorem snapshotLevels_none (s : Side) (levels : List L) :
    snapshotLevels view parse none s levels
      = if levels.isEmpty then none else some (levels.filterMap parse) := by
  simp [snapshotLevels]

theorem snapshotLevels_nil (filter : Option LobFilter) (s : Side) :
    snapshotLevels view parse filter s ([] : List L) = none := by
  simp [snapshotLevels]

theorem snapshotLevels_eq_none {f : LobFilter} {s : Side} {levels : List L} :
    snapshotLevels view parse (some f) s levels = none ↔ levels = [] ∨
      filterSnapshotLevels view OrderBook.new levels s f (findBestPrice view levels s) = [] := by
  by_cases hl : levels = [] <;> simp [snapshotLevels, hl]

theorem snapshotLevels_eq_some {f : LobFilter} {s : Side} {levels : List L}
    {es : List (F64 × F64)} (h : snapshotLevels view parse (some f) s levels = some es) :
    es = (filterSnapshotLevels view OrderBook.new levels s f
      (findBestPrice view levels s)).filterMap parse := by
  simp only [snapshotLevels] at h
  split at h
  · simp at h
  · exact (Option.some.inj h).symm

variable {M : Type} (data : M → List Value) (action : M → Option String)
  (parseLevels : Value → String → List L)

/-- The levels of a side that a message carries. -/
def levelsOf (msg : M) (s : Side) : List L :=
  match (data msg).head? with
  | some d => parseLevels d s.key
  | none => []

def kindOf (msg : M) : BookKind :=
  match (data msg).head? with
  | some _ =>
    if (action msg).getD "snapshot" = "snapshot" then .snapshot
    else if (action msg).getD "snapshot" = "update" then .update
    else .idle
  | none => .idle

variable {data action parseLevels}

theorem mem_levelsOf {msg : M} {s : Side} {l : L} (h : l ∈ levelsOf data parseLevels msg s) :
    ∃ d, l ∈ parseLevels d s.key := by
  unfold levelsOf at h
  split at h
  · exact ⟨_, h⟩
  · simp at h

/-- These two exchanges send no single orders. -/
theorem kindOf_ne_order {msg : M} : kindOf data action msg ≠ .order := by
  unfold kindOf
  split
  · split
    · simp
    · split <;> simp
  · simp

theorem kindOf_eq_snapshot {msg : M} (h : kindOf data action msg = .snapshot) :
    ∃ d, (data msg).head? = some d ∧ (action msg).getD "snapshot" = "snapshot" := by
  unfold kindOf at h
  cases hd : (data msg).head? with
  | none => simp [hd] at h
  | some d =>
    rw [hd] at h
    refine ⟨d, rfl, ?_⟩
    by_contra hs
    simp only [hs, if_false] at h
    split at h <;> simp at h

theorem kindOf_eq_update {msg : M} (h : kindOf data action msg = .update) :
    ∃ d, (data msg).head? = some d ∧ (action msg).getD "snapshot" = "update" := by
  unfold kindOf at h
  cases hd : (data msg).head? with
  | none => simp [hd] at h
  | some d =>
    rw [hd] at h
    refine ⟨d, rfl, ?_⟩
    by_contra hu
    simp only [hu, if_false] at h
    split at h <;> simp at h

theorem kindOf_eq_idle {msg : M} (h : kindOf data action msg = .idle) :
    (data msg).head? = none ∨
      (action msg).getD "snapshot" ≠ "snapshot" ∧ (action msg).getD "snapshot" ≠ "update" := by
  unfold kindOf at h
  cases hd : (data msg).head? with
  | none => exact Or.inl rfl
  | some d =>
    rw [hd] at h
    refine Or.inr ⟨fun hs => ?_, fun hu => ?_⟩
    · simp [hs] at h
    · simp [hu] at h

/-- The shared algorithm, for a kind of raw level that the filters read as `parse` does. -/
def model (view parse : L → Option (F64 × F64)) (parseLevels : Value → String → List L)
    (data : M → List Value) (action : M → Option String)
    (process : M → Option LobFilter → OrderBook → OrderBook)
    (hprocess : ∀ msg filter b,
      process msg filter b = processMsg view parse parseLevels (data msg) (action msg) filter b)
    (hview : ∀ l e, parse l = some e → view l = some e)
    (hread : ∀ d key, ∀ l ∈ parseLevels d key, view l = parse l) : BookModel where
  Msg := M
  Book := OrderBook
  new := OrderBook.new
  side := OrderBook.side
  processMsg := process
  kind := kindOf data action
  entries msg s := (levelsOf data parseLevels msg s).filterMap parse
  blank msg s := (levelsOf data parseLevels msg s).isEmpty
  fits _ := True
  grow := false
  snapshot msg filter s := snapshotLevels view parse filter s (levelsOf data parseLevels msg s)
  side_new := OrderBook.side_new
  side_idle msg filter b s h := by
    rw [hprocess, processMsg_other (kindOf_eq_idle h)]
  side_update msg filter b s h := by
    obtain ⟨d, hd, ha⟩ := kindOf_eq_update h
    simp only [hprocess, levelsOf, hd, side_update hview hd ha]
  side_snapshot msg filter b s h := by
    obtain ⟨d, hd, ha⟩ := kindOf_eq_snapshot h
    simp only [hprocess, levelsOf, hd, side_snapshot hd ha]
  snapshot_unfiltered msg s _ _ := by
    rw [snapshotLevels_none]
    cases hl : levelsOf data parseLevels msg s with
    | nil => exact Or.inr ⟨rfl, fun filter => snapshotLevels_nil filter s⟩
    | cons l ls => exact Or.inl rfl
  snapshot_subset msg f s es _ hes := by
    rw [snapshotLevels_eq_some hes]
    exact List.filterMap_subset _ (filterSnapshotLevels_subset _ _ _ _ _)
  snapshot_maxLevel_length msg n s es _ hes := by
    rw [snapshotLevels_eq_some hes]
    exact (List.length_filterMap_le _ _).trans (length_filterSnapshotLevels_maxLevel _ _ _ _ _)
  snapshot_maxLevel msg n s _ hnone := by
    cases hl : levelsOf data parseLevels msg s with
    | nil => exact Or.inl (snapshotLevels_nil none s)
    | cons l₀ ls =>
      rw [hl] at hnone
      refine Or.inr ⟨rfl, ?_⟩
      rcases snapshotLevels_eq_none.mp hnone with hnil | hnil
      · simp at hnil
      · refine (filterSnapshotLevels_maxLevel_eq_nil.mp hnil).imp_right fun hpos e he => ?_
        obtain ⟨l, hmem, hp⟩ := List.mem_filterMap.mp he
        exact hpos l hmem e (hview l e hp)
  snapshot_maxLevelPct msg pct ar s _ hnone := by
    cases hl : levelsOf data parseLevels msg s with
    | nil => exact Or.inl (snapshotLevels_nil none s)
    | cons l₀ ls =>
      rcases snapshotLevels_eq_none.mp hnone with hnil | hnil
      · rw [hl] at hnil
        simp at hnil
      · -- the level that carries the best price is refused like all others
        have hout := filterSnapshotLevels_maxLevelPct_eq_nil.mp hnil
        obtain ⟨-, best, -, hbest, -, -⟩ := hout l₀ (by rw [hl]; exact List.mem_cons_self)
        obtain ⟨l, hmem, a, hv⟩ := exists_of_findBestPrice hbest
        obtain ⟨e, best', hv', hbest', -, hwin⟩ := hout l hmem
        obtain rfl := Option.some.inj (hv.symm.trans hv')
        obtain rfl := Option.some.inj (hbest.symm.trans hbest')
        obtain ⟨d, hd⟩ := mem_levelsOf hmem
        have hp : parse l = some (best, a) := (hread d s.key l hd).symm.trans hv
        exact Or.inr ⟨(best, a), List.mem_filterMap.mpr ⟨l, hl ▸ hmem, hp⟩, hwin⟩

end Model

end Lob
end Cryptomeria
