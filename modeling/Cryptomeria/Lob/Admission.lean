import Cryptomeria.Lib.Selection
import Cryptomeria.Lob.Process

/-!
# Apply loops and admission

What a message writes to a side, as a log: an update writes its levels (`writes`), a snapshot
stores its positive ones on an empty side (`stores`), and the apply loops are the replay of
these logs. Nothing after this file unfolds an apply loop again.

`admitted` is the other half: which levels of an update the pre-filter lets through, for the
filters that look at the side as it was before the message (`grow = false`) and for the one that
counts while it goes (`grow = true`).
-/

set_option autoImplicit false

namespace Cryptomeria

open WriteLog

/-- A level of a message as a write: size zero takes the price out. -/
def writeOf (e : F64 × F64) : F64 × Option F64 :=
  (e.1, if e.2.eq F64.zero then none else some e.2)

def writes (es : List (F64 × F64)) : List (F64 × Option F64) := es.map writeOf

/-- The positive levels of a snapshot as writes. -/
def stores (es : List (F64 × F64)) : List (F64 × Option F64) :=
  (es.filter fun e => e.2.gt F64.zero).map fun e => (e.1, some e.2)

@[simp] theorem writes_nil : writes [] = [] := rfl

@[simp] theorem writes_map_fst (es : List (F64 × F64)) :
    (writes es).map Prod.fst = es.map Prod.fst := by
  simp [writes, writeOf, Function.comp_def]

theorem writeOf_snd_eq_some {e : F64 × F64} {v : F64} :
    (writeOf e).2 = some v ↔ e.2 = v ∧ v.eq F64.zero = false := by
  simp only [writeOf]
  split
  · rename_i h
    simp only [reduceCtorEq, false_iff, not_and]
    rintro rfl
    simp [h]
  · rename_i h
    simp only [Option.some.injEq]
    constructor
    · rintro rfl
      exact ⟨rfl, Bool.eq_false_iff.mpr h⟩
    · exact fun h => h.1

theorem stores_eq_writes (es : List (F64 × F64)) :
    stores es = writes (es.filter fun e => e.2.gt F64.zero) := by
  refine List.map_congr_left fun e he => ?_
  have hpos : e.2.gt F64.zero = true := by simpa using (List.mem_filter.mp he).2
  simp [writeOf, F64.eq_zero_of_gt_zero hpos]

/-! ## The apply loops -/

section Loops

variable {L : Type} {s : Side} (parse : L → Option (F64 × F64))

theorem foldl_snapshot (data : List L) (m : Levels s) :
    data.foldl (fun m level =>
      match parse level with
      | some (price, amount) => if amount.gt F64.zero then m.insert price amount else m
      | none => m) m = replay m (stores (data.filterMap parse)) := by
  induction data generalizing m with
  | nil => rfl
  | cons l ls ih =>
    rw [List.foldl_cons, ih, List.filterMap_cons]
    cases hp : parse l with
    | none => rfl
    | some e =>
      obtain ⟨price, amount⟩ := e
      by_cases hpos : amount.gt F64.zero = true
      · simp [stores, hpos, write]
      · simp [stores, hpos]

theorem foldl_update (data : List L) (m : Levels s) :
    data.foldl (fun m level =>
      match parse level with
      | some (price, amount) =>
        if amount.eq F64.zero then m.erase price else m.insert price amount
      | none => m) m = replay m (writes (data.filterMap parse)) := by
  induction data generalizing m with
  | nil => rfl
  | cons l ls ih =>
    rw [List.foldl_cons, ih, List.filterMap_cons]
    cases hp : parse l with
    | none => rfl
    | some e =>
      obtain ⟨price, amount⟩ := e
      by_cases hz : amount.eq F64.zero = true
      · simp [writes, writeOf, hz, write]
      · simp [writes, writeOf, hz, write]

end Loops

/-! ## What the pre-filter lets through -/

section Admission

variable {s : Side}

/-- `should_include` for a level of this side, with `extra` levels counted besides those held. -/
def admits (f : LobFilter) (m : Levels s) (extra : ℕ) (e : F64 × F64) : Bool :=
  f.shouldInclude m.best m.best e.1 e.2 (s = .bid) (m.size + extra) (m.contains e.1)

/-- The levels of an update that pass the filter. With `grow`, every level let through at a
price that is not held counts for the levels after it. -/
def admitted (grow : Bool) (f : LobFilter) (m : Levels s) :
    ℕ → List (F64 × F64) → List (F64 × F64)
  | _, [] => []
  | extra, e :: es =>
    if admits f m extra e then
      e :: admitted grow f m (if grow && !m.contains e.1 then extra + 1 else extra) es
    else admitted grow f m extra es

theorem admitted_sublist (grow : Bool) (f : LobFilter) (m : Levels s) (extra : ℕ)
    (es : List (F64 × F64)) : (admitted grow f m extra es).Sublist es := by
  induction es generalizing extra with
  | nil => exact List.Sublist.refl _
  | cons e es ih =>
    rw [admitted]
    split
    · exact (ih _).cons_cons e
    · exact (ih _).cons e

/-- A level that does not come through was refused, at some count. -/
theorem refused_of_not_mem_admitted {grow : Bool} {f : LobFilter} {m : Levels s} {extra : ℕ}
    {es : List (F64 × F64)} {e : F64 × F64} (he : e ∈ es) (hout : e ∉ admitted grow f m extra es) :
    ∃ n, admits f m n e = false := by
  induction es generalizing extra with
  | nil => simp at he
  | cons e' es ih =>
    rw [admitted] at hout
    split at hout
    · rename_i hadm
      rw [List.mem_cons, not_or] at hout
      rcases List.mem_cons.mp he with rfl | he
      · exact absurd rfl hout.1
      · exact ih he hout.2
    · rename_i hadm
      rcases List.mem_cons.mp he with rfl | he
      · exact ⟨extra, by simpa using hadm⟩
      · exact ih he hout

theorem admitted_eq_filter (f : LobFilter) (m : Levels s) (extra : ℕ) (es : List (F64 × F64)) :
    admitted false f m extra es = es.filter (admits f m extra) := by
  induction es with
  | nil => rfl
  | cons e es ih =>
    rw [admitted, List.filter_cons]
    split <;> simp [ih]

/-- The filter asks for the best price of the level's own side only. -/
theorem shouldInclude_own_side {f : LobFilter} {bb ba x : Option F64} {price amount : F64}
    {count : ℕ} {present : Bool} (hx : x = if s = .bid then bb else ba) :
    f.shouldInclude bb ba price amount (s = .bid) count present
      = f.shouldInclude x x price amount (s = .bid) count present := by
  cases s <;> simp_all [LobFilter.shouldInclude]

theorem admits_maxLevel {n extra : ℕ} {m : Levels s} {e : F64 × F64} :
    admits (.maxLevel n) m extra e
      = (e.2.eq F64.zero || m.contains e.1 || decide (m.size + extra < n)) :=
  LobFilter.shouldInclude_maxLevel

theorem admits_maxLevelPct_congr {pct : F64} {ar : Arithmetic} {m : Levels s} (extra extra' : ℕ)
    {e : F64 × F64} :
    admits (.maxLevelPct pct ar) m extra e = admits (.maxLevelPct pct ar) m extra' e := rfl

theorem admits_of_zero {f : LobFilter} {m : Levels s} {extra : ℕ} {e : F64 × F64}
    (h : e.2.eq F64.zero = true) : admits f m extra e = true :=
  LobFilter.shouldInclude_zero h

/-! ## The verdict on one entry

`admitted` carries its count along. What the filter says about one entry depends on the entries
before it only through the number of prices among them that are not held. -/

/-- The levels that count besides those held, after the entries `pre`. -/
def taken (grow : Bool) (m : Levels s) (pre : List (F64 × F64)) : ℕ :=
  if grow then (pre.filter fun e => !m.contains e.1).length else 0

/-- `should_include` for an entry that the entries `pre` precede. -/
def passes (grow : Bool) (f : LobFilter) (m : Levels s) (pre : List (F64 × F64))
    (e : F64 × F64) : Bool :=
  admits f m (taken grow m pre) e

/-- The count with which `admitted` leaves a list. -/
def extraAfter (grow : Bool) (f : LobFilter) (m : Levels s) : ℕ → List (F64 × F64) → ℕ
  | extra, [] => extra
  | extra, e :: es =>
    extraAfter grow f m
      (if admits f m extra e && (grow && !m.contains e.1) then extra + 1 else extra) es

theorem le_extraAfter (grow : Bool) (f : LobFilter) (m : Levels s) (extra : ℕ)
    (es : List (F64 × F64)) : extra ≤ extraAfter grow f m extra es := by
  induction es generalizing extra with
  | nil => exact le_refl _
  | cons e es ih =>
    rw [extraAfter]
    split
    · exact (Nat.le_succ extra).trans (ih _)
    · exact ih _

theorem extraAfter_of_not_grow (f : LobFilter) (m : Levels s) (extra : ℕ)
    (es : List (F64 × F64)) : extraAfter false f m extra es = extra := by
  induction es generalizing extra with
  | nil => rfl
  | cons e es ih =>
    rw [extraAfter]
    simpa using ih extra

/-- Below the limit the count has seen every price that is not held; once it reaches the limit it
stays there. -/
theorem extraAfter_lt_iff (n : ℕ) (m : Levels s) (extra : ℕ) (es : List (F64 × F64)) :
    m.size + extraAfter true (.maxLevel n) m extra es < n
      ↔ m.size + (extra + taken true m es) < n := by
  induction es generalizing extra with
  | nil => simp [extraAfter, taken]
  | cons e es ih =>
    rw [extraAfter]
    by_cases hheld : m.contains e.1 = true
    · have htaken : taken true m (e :: es) = taken true m es := by simp [taken, hheld]
      rw [htaken, ← ih extra]
      simp [hheld]
    · have htaken : taken true m (e :: es) = taken true m es + 1 := by simp [taken, hheld]
      by_cases hadm : admits (.maxLevel n) m extra e = true
      · rw [htaken, Nat.add_comm (taken true m es) 1, ← Nat.add_assoc extra, ← ih (extra + 1)]
        simp [hadm, hheld]
      · have hfull : n ≤ m.size + extra := by
          rw [admits_maxLevel] at hadm
          simp only [Bool.or_eq_true, decide_eq_true_eq, not_or, not_lt] at hadm
          exact hadm.2
        have hle := le_extraAfter true (.maxLevel n) m extra es
        simp only [hadm, Bool.false_eq_true, Bool.false_and, if_false]
        omega

theorem admits_extraAfter (grow : Bool) (f : LobFilter) (m : Levels s) (pre : List (F64 × F64))
    (e : F64 × F64) : admits f m (extraAfter grow f m 0 pre) e = passes grow f m pre e := by
  cases f with
  | maxLevelPct pct => exact admits_maxLevelPct_congr _ _
  | maxLevel n =>
    cases grow with
    | false => rw [extraAfter_of_not_grow]; rfl
    | true =>
      have hlt := extraAfter_lt_iff n m 0 pre
      rw [Nat.zero_add] at hlt
      simp only [passes, admits_maxLevel, hlt]

theorem admitted_append (grow : Bool) (f : LobFilter) (m : Levels s) (extra : ℕ)
    (es es' : List (F64 × F64)) :
    admitted grow f m extra (es ++ es')
      = admitted grow f m extra es ++ admitted grow f m (extraAfter grow f m extra es) es' := by
  induction es generalizing extra with
  | nil => rfl
  | cons e es ih =>
    rw [List.cons_append, admitted, admitted, extraAfter]
    by_cases hadm : admits f m extra e = true
    · simp only [hadm, if_true, Bool.true_and, ih, List.cons_append]
    · simp only [hadm, Bool.false_eq_true, if_false, Bool.false_and, ih]

theorem admitted_concat (grow : Bool) (f : LobFilter) (m : Levels s) (es : List (F64 × F64))
    (e : F64 × F64) :
    admitted grow f m 0 (es ++ [e])
      = admitted grow f m 0 es ++ if passes grow f m es e then [e] else [] := by
  rw [admitted_append, admitted, admits_extraAfter]
  rfl

/-! ## What an update leaves -/

/-- The price is held and no entry takes it out. -/
def Kept (m : Levels s) (es : List (F64 × F64)) (r : F64) : Prop :=
  r ∈ m ∧ ∀ e ∈ es, e.1 = r → e.2.eq F64.zero = false

/-- Some entry stores the price, passes, and is not undone by a later one. -/
def Offered (grow : Bool) (f : LobFilter) (m : Levels s) (es : List (F64 × F64)) (r : F64) :
    Prop :=
  ∃ pre e post, es = pre ++ e :: post ∧ e.1 = r ∧ e.2.eq F64.zero = false ∧
    passes grow f m pre e = true ∧ ∀ e' ∈ post, e'.1 = r → e'.2.eq F64.zero = false

theorem Kept.concat_iff {m : Levels s} {es : List (F64 × F64)} {e : F64 × F64} {r : F64} :
    Kept m (es ++ [e]) r ↔ Kept m es r ∧ (e.1 = r → e.2.eq F64.zero = false) := by
  simp only [Kept, List.forall_mem_append, List.forall_mem_singleton]
  grind

theorem Offered.concat_iff {grow : Bool} {f : LobFilter} {m : Levels s} {es : List (F64 × F64)}
    {e : F64 × F64} {r : F64} :
    Offered grow f m (es ++ [e]) r ↔
      (Offered grow f m es r ∧ (e.1 = r → e.2.eq F64.zero = false)) ∨
      (e.1 = r ∧ e.2.eq F64.zero = false ∧ passes grow f m es e = true) := by
  constructor
  · rintro ⟨pre, e', post, hes, hr, hnz, hpass, hpost⟩
    rcases concat_eq_split_iff.mp hes with ⟨rfl, rfl, rfl⟩ | ⟨post', rfl, rfl⟩
    · exact Or.inr ⟨hr, hnz, hpass⟩
    · rw [List.forall_mem_append, List.forall_mem_singleton] at hpost
      exact Or.inl ⟨⟨pre, e', post', rfl, hr, hnz, hpass, hpost.1⟩, hpost.2⟩
  · rintro (⟨⟨pre, e', post, rfl, hr, hnz, hpass, hpost⟩, he⟩ | ⟨hr, hnz, hpass⟩)
    · refine ⟨pre, e', post ++ [e], by simp, hr, hnz, hpass, ?_⟩
      rw [List.forall_mem_append, List.forall_mem_singleton]
      exact ⟨hpost, he⟩
    · exact ⟨es, e, [], rfl, hr, hnz, hpass, by simp⟩

/-- **What an update leaves on a side**, entry by entry: a price that was kept, or one that was
offered. -/
theorem mem_replay_admitted {grow : Bool} {f : LobFilter} {m : Levels s}
    {es : List (F64 × F64)} {r : F64} :
    r ∈ replay m (writes (admitted grow f m 0 es)) ↔ Kept m es r ∨ Offered grow f m es r := by
  induction es using List.reverseRecOn with
  | nil => simp [admitted, Kept, Offered]
  | append_singleton es e ih =>
    rw [admitted_concat, Kept.concat_iff, Offered.concat_iff]
    by_cases hpass : passes grow f m es e = true
    · have hwrite : r ∈ replay m (writes (admitted grow f m 0 es ++ [e])) ↔
          if e.1 = r then e.2.eq F64.zero = false
          else r ∈ replay m (writes (admitted grow f m 0 es)) := by
        rw [Std.ExtTreeMap.mem_iff_isSome_getElem?, writes, List.map_append, replay_append]
        rw [List.map_singleton, replay_cons, replay_nil, getElem?_write]
        by_cases hr : e.1 = r
        · cases hz : e.2.eq F64.zero <;> simp [writeOf, hr, hz]
        · rw [if_neg hr, Std.ExtTreeMap.mem_iff_isSome_getElem?]
          simp only [writeOf, hr, if_false]
          rfl
      rw [hpass, if_pos rfl, hwrite]
      by_cases hr : e.1 = r
      · rw [if_pos hr]
        grind
      · rw [if_neg hr, ih]
        grind
    · -- a refused entry is no removal
      have hnz : e.2.eq F64.zero = false := by
        by_contra hz
        exact hpass (admits_of_zero (by simpa using hz))
      rw [if_neg hpass, List.append_nil, ih]
      grind

end Admission

end Cryptomeria
