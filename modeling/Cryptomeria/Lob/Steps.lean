import Cryptomeria.Lob.Admission

/-!
# One message, one side at a time

`Lob.processMsg` runs over both sides and passes the whole book to the filters. This file takes
it apart: what happens to a side depends on that side only, an update replays what
`admitted` lets through (`side_update`), and a snapshot replaces the side by levels that depend on
the message alone, or leaves it (`side_snapshot`).
-/

set_option autoImplicit false

namespace Cryptomeria

open WriteLog

/-- The field of a data element that carries a side. -/
def Side.key : Side → String
  | .bid => "bids"
  | .ask => "asks"

/-- The levels that are applied, after an optional filter. -/
def letThrough {s : Side} (grow : Bool) (filter : Option LobFilter) (m : Levels s)
    (es : List (F64 × F64)) : List (F64 × F64) :=
  match filter with
  | none => es
  | some f => admitted grow f m 0 es

/-- A side after a snapshot that carries these levels for it, if it replaces the side at all. -/
def replaceSide {s : Side} (m : Levels s) : Option (List (F64 × F64)) → Levels s
  | none => m
  | some es => replay ∅ (stores es)

namespace OrderBook

@[simp] theorem setSide_side (b : OrderBook) (s : Side) : b.setSide s (b.side s) = b := by
  cases s <;> rfl

theorem best_side (b : OrderBook) (s : Side) :
    (b.side s).best = if s = .bid then b.bestBid else b.bestAsk := by
  cases s <;> rfl

end OrderBook

namespace Lob

variable {L : Type} {view parse : L → Option (F64 × F64)}

/-- The levels a snapshot puts on a side; `none` when it leaves the side alone. The filters of a
snapshot take their best price from the batch, so no book is involved. -/
def snapshotLevels (view parse : L → Option (F64 × F64)) (filter : Option LobFilter) (s : Side)
    (levels : List L) : Option (List (F64 × F64)) :=
  let kept := match filter with
    | some f =>
      filterSnapshotLevels view OrderBook.new levels s f (findBestPrice view levels s)
    | none => levels
  if levels.isEmpty || kept.isEmpty then none else some (kept.filterMap parse)

/-! ## The filters see one side -/

theorem filterSnapshotLevels_congr (b b' : OrderBook) (levels : List L) (s : Side)
    (f : LobFilter) (best : Option F64) :
    filterSnapshotLevels view b levels s f best = filterSnapshotLevels view b' levels s f best := by
  cases f with
  | maxLevel n => rfl
  | maxLevelPct pct ar =>
    refine List.filter_congr fun l _ => ?_
    cases view l with
    | none => rfl
    | some e => cases s <;> rfl

theorem filterLevels_eq (b : OrderBook) (levels : List L) (s : Side) (f : LobFilter) :
    filterLevels view b levels s f
      = levels.filter fun l => (view l).all (admits f (b.side s) 0) := by
  refine List.filter_congr fun l _ => ?_
  cases view l with
  | none => rfl
  | some e => exact shouldInclude_own_side (b.best_side s)

/-- What passes the filter and can be read is what can be read and is admitted. -/
theorem filterMap_filterLevels (hview : ∀ l e, parse l = some e → view l = some e)
    (b : OrderBook) (levels : List L) (s : Side) (f : LobFilter) :
    (filterLevels view b levels s f).filterMap parse
      = admitted false f (b.side s) 0 (levels.filterMap parse) := by
  rw [filterLevels_eq, admitted_eq_filter]
  induction levels with
  | nil => rfl
  | cons l ls ih =>
    rw [List.filter_cons, List.filterMap_cons]
    cases hp : parse l with
    | none =>
      rw [← ih]
      split <;> simp [hp]
    | some e =>
      rw [hview l e hp, Option.all_some, List.filter_cons]
      split <;> simp [hp, ih]

/-! ## One side of a message -/

theorem side_applySnapshot (b : OrderBook) (data : List L) (s : Side) :
    applySnapshot parse data s b = b.setSide s (replay ∅ (stores (data.filterMap parse))) :=
  congrArg (b.setSide s) (foldl_snapshot parse data ∅)

theorem side_applyUpdate (b : OrderBook) (data : List L) (s : Side) :
    applyUpdate parse data s b
      = b.setSide s (replay (b.side s) (writes (data.filterMap parse))) :=
  congrArg (b.setSide s) (foldl_update parse data (b.side s))

theorem processSide_snapshot (filter : Option LobFilter) (b : OrderBook) (s : Side)
    (levels : List L) :
    processSide view parse "snapshot" filter b s levels
      = b.setSide s (replaceSide (b.side s) (snapshotLevels view parse filter s levels)) := by
  unfold processSide snapshotLevels
  by_cases hl : levels.isEmpty = true
  · simp [hl, replaceSide]
  · cases filter with
    | none => simp [hl, replaceSide, side_applySnapshot]
    | some f =>
      simp only [filterSnapshotLevels_congr OrderBook.new b]
      by_cases hk : (filterSnapshotLevels view b levels s f
          (findBestPrice view levels s)).isEmpty = true
      · simp [hl, hk, replaceSide]
      · simp [hl, hk, replaceSide, side_applySnapshot]

theorem processSide_update (hview : ∀ l e, parse l = some e → view l = some e)
    (filter : Option LobFilter) (b : OrderBook) (s : Side) (levels : List L) :
    processSide view parse "update" filter b s levels
      = b.setSide s (replay (b.side s)
          (writes (letThrough false filter (b.side s) (levels.filterMap parse)))) := by
  have hne : ("update" : String) ≠ "snapshot" := by decide
  unfold processSide
  by_cases hl : levels.isEmpty = true
  · obtain rfl := List.isEmpty_iff.mp hl
    cases filter <;> simp [letThrough, admitted]
  · cases filter with
    | none => simp [hl, hne, letThrough, side_applyUpdate]
    | some f =>
      have hkept := filterMap_filterLevels hview b levels s f
      by_cases hk : (filterLevels view b levels s f).isEmpty = true
      · -- nothing passes, so nothing is written
        rw [List.isEmpty_iff.mp hk, List.filterMap_nil] at hkept
        simp [hl, hne, hk, letThrough, ← hkept]
      · simp [hl, hne, hk, letThrough, side_applyUpdate, hkept]

theorem processSide_other {action : String} (hs : action ≠ "snapshot") (hu : action ≠ "update")
    (filter : Option LobFilter) (b : OrderBook) (s : Side) (levels : List L) :
    processSide view parse action filter b s levels = b := by
  unfold processSide
  simp [hs, hu]

/-! ## Both sides -/

variable {parseLevels : Value → String → List L}

/-- Two steps, each of which rewrites its own side from that side alone, do not meet. -/
theorem side_two_steps (b : OrderBook) (g : (s : Side) → Levels s → Levels s) (s : Side) :
    ((b.setSide .bid (g .bid (b.side .bid))).setSide .ask
      (g .ask ((b.setSide .bid (g .bid (b.side .bid))).side .ask))).side s
      = g s (b.side s) := by
  cases s <;> rfl

theorem side_snapshot {data : List Value} {d : Value} {action : Option String}
    (hd : data.head? = some d) (ha : action.getD "snapshot" = "snapshot")
    (filter : Option LobFilter) (b : OrderBook) (s : Side) :
    (processMsg view parse parseLevels data action filter b).side s
      = replaceSide (b.side s) (snapshotLevels view parse filter s (parseLevels d s.key)) := by
  simp only [processMsg, hd, ha, List.foldl_cons, List.foldl_nil, processSide_snapshot]
  exact side_two_steps b (fun s m =>
    replaceSide m (snapshotLevels view parse filter s (parseLevels d s.key))) s

theorem side_update (hview : ∀ l e, parse l = some e → view l = some e) {data : List Value}
    {d : Value} {action : Option String} (hd : data.head? = some d)
    (ha : action.getD "snapshot" = "update") (filter : Option LobFilter) (b : OrderBook)
    (s : Side) :
    (processMsg view parse parseLevels data action filter b).side s
      = replay (b.side s) (writes
          (letThrough false filter (b.side s) ((parseLevels d s.key).filterMap parse))) := by
  simp only [processMsg, hd, ha, List.foldl_cons, List.foldl_nil, processSide_update hview]
  exact side_two_steps b (fun s m =>
    replay m (writes (letThrough false filter m ((parseLevels d s.key).filterMap parse)))) s

theorem processMsg_other {data : List Value} {action : Option String}
    (h : data.head? = none ∨
      action.getD "snapshot" ≠ "snapshot" ∧ action.getD "snapshot" ≠ "update")
    (filter : Option LobFilter) (b : OrderBook) :
    processMsg view parse parseLevels data action filter b = b := by
  rcases h with hd | ⟨hs, hu⟩
  · simp [processMsg, hd]
  · cases hd : data.head? with
    | none => simp [processMsg, hd]
    | some d => simp [processMsg, hd, processSide_other hs hu]

end Lob
end Cryptomeria
