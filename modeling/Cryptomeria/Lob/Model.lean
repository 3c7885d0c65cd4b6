import Cryptomeria.Lib.Trace
import Cryptomeria.Lob.Steps

/-!
# What the three order books have in common

A `BookModel` is an order book with its `process_msg`, together with the two equations that say
what a message does to one side: an update replays what the filter lets through
(`side_update`), a snapshot replaces the side by levels that depend on the message alone
(`side_snapshot`). The laws about `snapshot` say which levels these can be.

The results about filters over whole runs are proved once, for a `BookModel`; the books of the
three exchanges are its instances.
-/

set_option autoImplicit false

namespace Cryptomeria

open WriteLog

/-- What a message is to a book. -/
inductive BookKind where
  | snapshot
  | update
  /-- a single order of the `live_orders` channel -/
  | order
  | idle
deriving DecidableEq

structure BookModel where
  Msg : Type
  Book : Type
  new : Book
  side : Book → (s : Side) → Levels s
  processMsg : Msg → Option LobFilter → Book → Book
  kind : Msg → BookKind
  /-- The levels of a side that can be read, in the order of the message. -/
  entries : Msg → Side → List (F64 × F64)
  /-- The message carries no level for the side, readable or not. -/
  blank : Msg → Side → Bool
  /-- A snapshot is not longer than the book's snapshot depth. -/
  fits : Msg → Prop
  /-- The filter of an update counts the levels it has let through. -/
  grow : Bool
  /-- The levels a snapshot puts on a side; `none` when it leaves the side alone. -/
  snapshot : Msg → Option LobFilter → (s : Side) → Option (List (F64 × F64))
  side_new : ∀ s, side new s = ∅
  side_idle : ∀ msg filter b s, kind msg = .idle →
    side (processMsg msg filter b) s = side b s
  side_update : ∀ msg filter b s, kind msg = .update →
    side (processMsg msg filter b) s
      = replay (side b s) (writes (letThrough grow filter (side b s) (entries msg s)))
  side_snapshot : ∀ msg filter b s, kind msg = .snapshot →
    side (processMsg msg filter b) s = replaceSide (side b s) (snapshot msg filter s)
  /-- Without a filter a snapshot carries what it lists, unless its list is empty. -/
  snapshot_unfiltered : ∀ msg s, kind msg = .snapshot → fits msg →
    snapshot msg none s = some (entries msg s) ∨
      blank msg s = true ∧ ∀ filter, snapshot msg filter s = none
  snapshot_subset : ∀ msg f s es, kind msg = .snapshot → snapshot msg (some f) s = some es →
    es ⊆ entries msg s
  snapshot_maxLevel_length : ∀ msg n s es, kind msg = .snapshot →
    snapshot msg (some (.maxLevel n)) s = some es → es.length ≤ n
  /-- `MaxLevel` finds nothing to keep only where there is nothing positive. -/
  snapshot_maxLevel : ∀ msg n s, kind msg = .snapshot →
    snapshot msg (some (.maxLevel n)) s = none →
    snapshot msg none s = none ∨
      blank msg s = false ∧ (n = 0 ∨ ∀ e ∈ entries msg s, e.2.gt F64.zero = false)
  /-- `MaxLevelPct` keeps nothing only where the best listed price is outside its own window. -/
  snapshot_maxLevelPct : ∀ msg pct ar s, kind msg = .snapshot →
    snapshot msg (some (.maxLevelPct pct ar)) s = none →
    snapshot msg none s = none ∨ ∃ e ∈ entries msg s, s.inWindow ar pct e.1 e.1 = false

namespace BookModel

variable (x : BookModel)

/-- A message of the shape that an exchange sends: it names a price at most once per side, a
side that a snapshot lists at all has a positive size, and no snapshot is cut off. -/
structure WellFormed (msg : x.Msg) : Prop where
  nodup : ∀ s, ((x.entries msg s).map Prod.fst).Nodup
  positive : x.kind msg = .snapshot → ∀ s, x.blank msg s = false →
    ∃ e ∈ x.entries msg s, e.2.gt F64.zero = true
  fits : x.kind msg = .snapshot → x.fits msg
  notOrder : x.kind msg ≠ .order

/-- All prices of the message are positive numbers. -/
def PricesPositive (msg : x.Msg) : Prop :=
  ∀ s, ∀ e ∈ x.entries msg s, e.1.IsPos

instance (msg : x.Msg) [Decidable (x.fits msg)] : Decidable (x.WellFormed msg) :=
  decidable_of_iff
    ((∀ s, ((x.entries msg s).map Prod.fst).Nodup) ∧
      (x.kind msg = .snapshot → ∀ s, x.blank msg s = false →
        ∃ e ∈ x.entries msg s, e.2.gt F64.zero = true) ∧
      (x.kind msg = .snapshot → x.fits msg) ∧ x.kind msg ≠ .order)
    ⟨fun ⟨h₁, h₂, h₃, h₄⟩ => ⟨h₁, h₂, h₃, h₄⟩, fun ⟨h₁, h₂, h₃, h₄⟩ => ⟨h₁, h₂, h₃, h₄⟩⟩

instance (msg : x.Msg) : Decidable (x.PricesPositive msg) :=
  inferInstanceAs (Decidable (∀ s, ∀ e ∈ x.entries msg s, e.1.IsPos))

/-- One message into two books, one of which filters. -/
def stepBoth (f : LobFilter) (p : x.Book × x.Book) (msg : x.Msg) : x.Book × x.Book :=
  (x.processMsg msg (some f) p.1, x.processMsg msg none p.2)

/-- Every level of the first book is in the second, with the same size. -/
def Subset (p : x.Book × x.Book) : Prop := ∀ s, Included (x.side p.1 s) (x.side p.2 s)

variable {x}

theorem subset_new : x.Subset (x.new, x.new) := fun _ => Included.refl _

end BookModel

end Cryptomeria
