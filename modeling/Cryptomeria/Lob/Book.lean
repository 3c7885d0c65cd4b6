import Cryptomeria.Traits.LobFilter

/-!
# Order books

The two sides of a book are `BTreeMap`s from price to size. Bids are keyed by `Reverse`, so that
on both sides the first key is the best price; the comparison of a side is `Side.cmp`.
-/

set_option autoImplicit false

namespace Cryptomeria

inductive Side where
  | bid
  | ask
deriving DecidableEq

instance : Fintype Side := ⟨{.bid, .ask}, by intro s; cases s <;> decide⟩

namespace Side

/-- The order of the keys: `Reverse<OrderedFloat>` for bids, `OrderedFloat` for asks. -/
def cmp : Side → F64 → F64 → Ordering
  | .bid, a, b => compare b a
  | .ask, a, b => compare a b

instance instTransCmp (s : Side) : Std.TransCmp s.cmp := by
  cases s
  · exact (inferInstance : Std.TransCmp fun a b : F64 => compare b a)
  · exact (inferInstance : Std.TransCmp fun a b : F64 => compare a b)

instance instLawfulEqCmp (s : Side) : Std.LawfulEqCmp s.cmp where
  eq_of_compare := by
    intro a b h
    cases s with
    | bid => exact (compare_eq_iff_eq.mp h).symm
    | ask => exact compare_eq_iff_eq.mp h

theorem isLE_cmp {s : Side} {a b : F64} :
    (s.cmp a b).isLE ↔ match s with
      | .bid => b ≤ a
      | .ask => a ≤ b := by
  have hle : ∀ a b : F64, (compare a b).isLE ↔ a ≤ b := by
    intro a b
    rw [← compare_le_iff_le]
    cases compare a b <;> simp
  cases s
  · exact hle b a
  · exact hle a b

theorem cmp_eq_lt {s : Side} {a b : F64} :
    s.cmp a b = .lt ↔ match s with
      | .bid => b < a
      | .ask => a < b := by
  cases s
  · exact compare_lt_iff_lt
  · exact compare_lt_iff_lt

theorem isLE_cmp_of_not_lt {s : Side} {a b : F64} (h : s.cmp a b ≠ .lt) : (s.cmp b a).isLE := by
  rw [@Std.OrientedCmp.eq_swap _ s.cmp]
  cases hc : s.cmp a b <;> simp_all

/-- `a` is a better price than `b`: `a > b` for bids, `a < b` for asks. -/
def beats : Side → F64 → F64 → Bool
  | .bid, a, b => a.gt b
  | .ask, a, b => a.lt b

/-- The worst price within `pct` percent of `best`. -/
def threshold (ar : Arithmetic) : Side → F64 → F64 → F64
  | .bid => LobFilter.bidThreshold ar
  | .ask => LobFilter.askThreshold ar

/-- `price` is not worse than `t`: `price >= t` for bids, `price <= t` for asks. -/
def within : Side → F64 → F64 → Bool
  | .bid, price, t => price.ge t
  | .ask, price, t => price.le t

/-- `price` is within `pct` percent of `best`. -/
def inWindow (ar : Arithmetic) (s : Side) (pct best price : F64) : Bool :=
  s.within (ar.round price) (s.threshold ar pct best)

end Side

/-- One side of a book, best price first. -/
abbrev Levels (s : Side) := Std.ExtTreeMap F64 F64 s.cmp

/-- `first_key_value().map(|(k, _)| k)` -/
def Levels.best {s : Side} (m : Levels s) : Option F64 := m.toList.head?.map Prod.fst

/-- The levels that are not worse than the threshold of the best price. -/
def Levels.withinPct {s : Side} (m : Levels s) (topPct : F64) : List (F64 × F64) :=
  let threshold := m.best.map fun b => s.threshold .double topPct b
  m.toList.filter fun level =>
    match threshold with
    | some t => s.within level.1.round t
    | none => true

structure OrderBook where
  bids : Levels .bid := ∅
  asks : Levels .ask := ∅

namespace OrderBook

/-- `OrderBook::new()` -/
def new : OrderBook := {}

def side (b : OrderBook) : (s : Side) → Levels s
  | .bid => b.bids
  | .ask => b.asks

def setSide (b : OrderBook) : (s : Side) → Levels s → OrderBook
  | .bid, m => { b with bids := m }
  | .ask, m => { b with asks := m }

def numBids (b : OrderBook) : ℕ := b.bids.size

def numAsks (b : OrderBook) : ℕ := b.asks.size

def bestBid (b : OrderBook) : Option F64 := b.bids.best

def bestAsk (b : OrderBook) : Option F64 := b.asks.best

def spread (b : OrderBook) : Option F64 :=
  match b.bestAsk, b.bestBid with
  | some a, some b => some (a.sub b)
  | _, _ => none

def levelsWithinPct (b : OrderBook) (topPct : F64) : List (F64 × F64) × List (F64 × F64) :=
  (b.bids.withinPct topPct, b.asks.withinPct topPct)

def totalBidSize (b : OrderBook) : F64 := F64.sum (b.bids.toList.map Prod.snd)

def totalAskSize (b : OrderBook) : F64 := F64.sum (b.asks.toList.map Prod.snd)

@[simp] theorem side_setSide_self (b : OrderBook) (s : Side) (m : Levels s) :
    (b.setSide s m).side s = m := by
  cases s <;> rfl

theorem side_setSide_of_ne (b : OrderBook) {s s' : Side} (h : s' ≠ s) (m : Levels s') :
    (b.setSide s' m).side s = b.side s := by
  cases s <;> cases s' <;> first | rfl | exact absurd rfl h

@[simp] theorem side_new (s : Side) : new.side s = ∅ := by
  cases s <;> rfl

theorem ext_side {b b' : OrderBook} (h : ∀ s, b.side s = b'.side s) : b = b' := by
  cases b
  cases b'
  have hb := h .bid
  have ha := h .ask
  simp only [side] at hb ha
  rw [hb, ha]

end OrderBook

/-! ## The best price -/

section Best

variable {s : Side} {m : Levels s}

theorem Levels.best_eq_minKey? : m.best = m.minKey? := by
  rw [Levels.best, Std.ExtTreeMap.minKey?_eq_head?_keys, ← Std.ExtTreeMap.map_fst_toList_eq_keys,
    List.head?_map]

theorem Levels.best_eq_none : m.best = none ↔ m = ∅ := by
  rw [Levels.best_eq_minKey?, Std.ExtTreeMap.minKey?_eq_none_iff]

theorem Levels.best_mem {p : F64} (h : m.best = some p) : p ∈ m := by
  rw [Levels.best_eq_minKey?] at h
  exact Std.ExtTreeMap.minKey?_mem h

/-- No price of the side comes before the best one. -/
theorem Levels.best_le {p q : F64} (h : m.best = some p) (hq : q ∈ m) : (s.cmp p q).isLE := by
  rw [Levels.best_eq_minKey?, Std.ExtTreeMap.minKey?_eq_some_iff_mem_and_forall] at h
  exact h.2 q hq

theorem Levels.best_eq_some_iff {p : F64} :
    m.best = some p ↔ p ∈ m ∧ ∀ q ∈ m, (s.cmp p q).isLE := by
  rw [Levels.best_eq_minKey?, Std.ExtTreeMap.minKey?_eq_some_iff_mem_and_forall]

theorem Levels.pairwise_toList (m : Levels s) :
    m.toList.Pairwise fun e e' => s.cmp e.1 e'.1 = .lt := by
  have hkeys : m.keys.Pairwise fun a b => s.cmp a b = .lt := Std.ExtTreeMap.ordered_keys
  rwa [← Std.ExtTreeMap.map_fst_toList_eq_keys, List.pairwise_map] at hkeys

theorem Levels.exists_best {q : F64} (hq : q ∈ m) : ∃ p, m.best = some p := by
  cases hb : m.best with
  | some p => exact ⟨p, rfl⟩
  | none =>
    rw [Levels.best_eq_none] at hb
    rw [hb] at hq
    simp at hq

/-- **The best price is at least as good as `q`** exactly when some price of the side is. -/
theorem Levels.best_isLE_iff {q : F64} :
    (∃ p, m.best = some p ∧ (s.cmp p q).isLE) ↔ ∃ r ∈ m, (s.cmp r q).isLE := by
  constructor
  · rintro ⟨p, hp, hle⟩
    exact ⟨p, Levels.best_mem hp, hle⟩
  · rintro ⟨r, hr, hle⟩
    obtain ⟨p, hp⟩ := Levels.exists_best hr
    exact ⟨p, hp, Std.TransCmp.isLE_trans (Levels.best_le hp hr) hle⟩

end Best

end Cryptomeria
