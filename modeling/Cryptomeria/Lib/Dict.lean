import Mathlib

/-!
# Dictionaries in insertion order

A dictionary is a list of items with distinct keys. A key that is set again keeps its place, a new
one goes to the end; `get?_set` and `get?_pop` say what a lookup sees. The items sorted by key are
in strict order, because no two of them have the same key (`pairwise_ascending`,
`pairwise_descending`).
-/

set_option autoImplicit false

structure Dict (K V : Type) where
  items : List (K × V)
  nodup : (items.map Prod.fst).Nodup

namespace Dict

variable {K V : Type}

def empty : Dict K V := ⟨[], List.nodup_nil⟩

section Ops

variable [DecidableEq K]

def getItems (k : K) : List (K × V) → Option V
  | [] => none
  | e :: es => if e.1 = k then some e.2 else getItems k es

/-- `d.get(k)` -/
def get? (d : Dict K V) (k : K) : Option V := getItems k d.items

def setItems (k : K) (v : V) : List (K × V) → List (K × V)
  | [] => [(k, v)]
  | e :: es => if e.1 = k then (e.1, v) :: es else e :: setItems k v es

theorem map_fst_setItems (k : K) (v : V) (es : List (K × V)) :
    (setItems k v es).map Prod.fst
      = if k ∈ es.map Prod.fst then es.map Prod.fst else es.map Prod.fst ++ [k] := by
  induction es with
  | nil => simp [setItems]
  | cons e es ih =>
    by_cases h : e.1 = k
    · simp [setItems, h]
    · have h' : k ≠ e.1 := fun heq => h heq.symm
      by_cases hk : k ∈ es.map Prod.fst
      · simp only [setItems, h, if_false, List.map_cons, ih, hk, if_true, List.mem_cons, h',
          false_or]
      · simp only [setItems, h, if_false, List.map_cons, ih, hk, List.mem_cons, h', or_self,
          List.cons_append]

theorem nodup_setItems (k : K) (v : V) {es : List (K × V)} (h : (es.map Prod.fst).Nodup) :
    ((setItems k v es).map Prod.fst).Nodup := by
  rw [map_fst_setItems]
  split
  · exact h
  · rename_i hk
    exact List.Nodup.append h (List.nodup_singleton k) (by simpa using hk)

/-- `d[k] = v` -/
def set (d : Dict K V) (k : K) (v : V) : Dict K V :=
  ⟨setItems k v d.items, nodup_setItems k v d.nodup⟩

omit [DecidableEq K] in
theorem nodup_filter_fst (p : K × V → Bool) {es : List (K × V)} (h : (es.map Prod.fst).Nodup) :
    ((es.filter p).map Prod.fst).Nodup := h.sublist (List.filter_sublist.map _)

/-- `d.pop(k, None)` -/
def pop (d : Dict K V) (k : K) : Dict K V :=
  ⟨d.items.filter fun e => e.1 ≠ k, nodup_filter_fst _ d.nodup⟩

@[simp] theorem get?_empty (k : K) : (empty : Dict K V).get? k = none := rfl

theorem get?_set (d : Dict K V) (k k' : K) (v : V) :
    (d.set k v).get? k' = if k = k' then some v else d.get? k' := by
  have hitems : ∀ es : List (K × V),
      getItems k' (setItems k v es) = if k = k' then some v else getItems k' es := by
    intro es
    induction es with
    | nil => rfl
    | cons e es ih =>
      by_cases he : e.1 = k
      · by_cases hk : k = k'
        · simp [setItems, getItems, he, hk]
        · simp [setItems, getItems, he, hk]
      · by_cases hk' : e.1 = k'
        · have hk : k ≠ k' := fun h => he (hk'.trans h.symm)
          rw [setItems, if_neg he, getItems, if_pos hk', if_neg hk, getItems, if_pos hk']
        · simp only [setItems, he, if_false, getItems, hk', ih]
  exact hitems d.items

theorem get?_pop (d : Dict K V) (k k' : K) :
    (d.pop k).get? k' = if k = k' then none else d.get? k' := by
  have hitems : ∀ es : List (K × V),
      getItems k' (es.filter fun e => e.1 ≠ k) = if k = k' then none else getItems k' es := by
    intro es
    induction es with
    | nil => simp [getItems]
    | cons e es ih =>
      by_cases he : e.1 = k
      · rw [List.filter_cons_of_neg (by simpa using he), ih, getItems, he]
        split <;> rfl
      · rw [List.filter_cons_of_pos (by simpa using he), getItems, getItems, ih]
        by_cases hk' : e.1 = k'
        · have hk : k ≠ k' := fun h => he (hk'.trans h.symm)
          rw [if_pos hk', if_neg hk, if_pos hk']
        · rw [if_neg hk', if_neg hk']
  exact hitems d.items

end Ops

/-! ## Sorting by key -/

section ByKey

variable [LinearOrder K]

/-- `sorted(d.items(), key=lambda x: x[0])` -/
def ascending (d : Dict K V) : List (K × V) := d.items.insertionSort fun e e' => e.1 ≤ e'.1

/-- `sorted(d.items(), key=lambda x: x[0], reverse=True)` -/
def descending (d : Dict K V) : List (K × V) := d.items.insertionSort fun e e' => e'.1 ≤ e.1

theorem perm_ascending (d : Dict K V) : d.ascending.Perm d.items := List.perm_insertionSort _ _

theorem perm_descending (d : Dict K V) : d.descending.Perm d.items := List.perm_insertionSort _ _

omit [LinearOrder K] in
/-- No two items have the same key, in any order. -/
theorem pairwise_ne (d : Dict K V) {es : List (K × V)} (h : es.Perm d.items) :
    es.Pairwise fun e e' => e.1 ≠ e'.1 := by
  have hnd : (es.map Prod.fst).Nodup := (h.map Prod.fst).nodup_iff.mpr d.nodup
  exact List.pairwise_map.mp hnd

theorem pairwise_ascending (d : Dict K V) : d.ascending.Pairwise fun e e' => e.1 < e'.1 := by
  have : Std.Total fun e e' : K × V => e.1 ≤ e'.1 := ⟨fun e e' => le_total e.1 e'.1⟩
  have : IsTrans (K × V) fun e e' => e.1 ≤ e'.1 := ⟨fun _ _ _ => le_trans⟩
  have hle : d.ascending.Pairwise fun e e' => e.1 ≤ e'.1 := List.pairwise_insertionSort _ d.items
  exact (hle.and (d.pairwise_ne d.perm_ascending)).imp fun h => lt_of_le_of_ne h.1 h.2

theorem pairwise_descending (d : Dict K V) : d.descending.Pairwise fun e e' => e'.1 < e.1 := by
  have : Std.Total fun e e' : K × V => e'.1 ≤ e.1 := ⟨fun e e' => le_total e'.1 e.1⟩
  have : IsTrans (K × V) fun e e' => e'.1 ≤ e.1 := ⟨fun _ _ _ h h' => le_trans h' h⟩
  have hle : d.descending.Pairwise fun e e' => e'.1 ≤ e.1 := List.pairwise_insertionSort _ d.items
  exact (hle.and (d.pairwise_ne d.perm_descending)).imp fun h => lt_of_le_of_ne h.1 h.2.symm

end ByKey

end Dict
