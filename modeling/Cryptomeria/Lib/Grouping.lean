import Cryptomeria.Lib.WriteLog

/-!
# Items gathered under keys

A loop goes over items and puts each into the cell of its key; an item without a key is skipped and
a cell begins as `fresh`. What a cell holds at the end depends on its own items alone, in their
order (`getElem?_gather`).
-/

set_option autoImplicit false

namespace Grouping

open Std

variable {A K V : Type} {cmp : K → K → Ordering} [TransCmp cmp] [LawfulEqCmp cmp] [DecidableEq K]
  (key : A → Option K) (put : A → V → V) (fresh : V)

/-- The body of the loop. -/
def visit (m : ExtTreeMap K V cmp) (a : A) : ExtTreeMap K V cmp :=
  match key a with
  | none => m
  | some k => m.insert k (put a ((m[k]?).getD fresh))

/-- The items of one cell. -/
def itemsOf (k : K) (as : List A) : List A := as.filter fun a => key a = some k

/-- What these items make of a cell; it is not there before the first one. -/
def cell (v : Option V) (as : List A) : Option V :=
  as.foldl (fun v a => some (put a (v.getD fresh))) v

variable {key put fresh} {m : ExtTreeMap K V cmp} {k : K}

theorem getElem?_visit (a : A) :
    (visit key put fresh m a)[k]?
      = if key a = some k then some (put a ((m[k]?).getD fresh)) else m[k]? := by
  unfold visit
  cases hkey : key a with
  | none => simp
  | some k' =>
    by_cases hk : k' = k
    · subst hk
      simp
    · simp [ExtTreeMap.getElem?_insert, hk]

/-- A cell at the end of the loop. -/
theorem getElem?_gather (as : List A) :
    (as.foldl (visit key put fresh) m)[k]? = cell put fresh m[k]? (itemsOf key k as) := by
  induction as generalizing m with
  | nil => rfl
  | cons a as ih =>
    rw [List.foldl_cons, ih, getElem?_visit]
    by_cases hkey : key a = some k
    · simp only [itemsOf, List.filter_cons, hkey, if_true, decide_true, cell, List.foldl_cons]
    · simp only [itemsOf, List.filter_cons, hkey, if_false, decide_false, Bool.false_eq_true]

theorem itemsOf_append (k : K) (as as' : List A) :
    itemsOf key k (as ++ as') = itemsOf key k as ++ itemsOf key k as' :=
  List.filter_append ..

/-- Where a cell that is there is never `fresh`, it is enough to know what the items make of
`fresh`. -/
theorem cell_eq_ite [DecidableEq V] {as : List A} (h : ∀ a ∈ as, ∀ v, put a v ≠ fresh) (v : V) :
    cell put fresh (if v = fresh then none else some v) as
      = if as.foldl (fun v a => put a v) v = fresh then none
        else some (as.foldl (fun v a => put a v) v) := by
  induction as generalizing v with
  | nil => rfl
  | cons a as ih =>
    obtain ⟨ha, has⟩ := List.forall_mem_cons.mp h
    have hget : (if v = fresh then none else some v).getD fresh = v := by
      split
      · rename_i hv
        exact hv.symm
      · rfl
    have hnext := ih has (put a v)
    rw [if_neg (ha v)] at hnext
    rw [List.foldl_cons, ← hnext, cell, List.foldl_cons, hget]
    rfl

/-- What gives nothing can be left out. -/
theorem flatMap_filter {B : Type} {p : A → Bool} {f : A → List B} {l : List A}
    (h : ∀ a, p a = false → f a = []) : (l.filter p).flatMap f = l.flatMap f := by
  induction l with
  | nil => rfl
  | cons a l ih =>
    rw [List.flatMap_cons, List.filter_cons]
    split
    · rw [List.flatMap_cons, ih]
    · rename_i hp
      rw [ih, h a (by simpa using hp), List.nil_append]

/-- An entry of the map, seen through `f`, which drops the others. -/
theorem filterMap_toList_at {B : Type} {f : K × V → Option B}
    (h : ∀ k' v, k' ≠ k → f (k', v) = none) :
    m.toList.filterMap f = ((m[k]?).bind fun v => f (k, v)).toList := by
  have hagree : ∀ m' : ExtTreeMap K V cmp, m[k]? = m'[k]? →
      m.toList.filterMap f = m'.toList.filterMap f := by
    intro m' heq
    refine WriteLog.filterMap_toList_congr fun k' v hkept => ?_
    by_cases hk : k' = k
    · rw [hk, heq]
    · rw [h k' v hk] at hkept
      cases hkept
  cases hm : m[k]? with
  | none => rw [hagree ∅ (by simp [hm])]; rfl
  | some v =>
    have hsingle : ((∅ : ExtTreeMap K V cmp).insert k v).toList = [(k, v)] := by
      refine WriteLog.toList_eq_of_pairwise (List.pairwise_singleton _ _) fun k' v' => ?_
      by_cases hk : k = k'
      · subst hk
        simp [eq_comm]
      · simp [hk, Ne.symm hk]
    have heq : m[k]? = ((∅ : ExtTreeMap K V cmp).insert k v)[k]? := by
      rw [hm, ExtTreeMap.getElem?_insert_self]
    rw [hagree _ heq, hsingle, Option.bind_some]
    cases hf : f (k, v) <;> simp [hf]

end Grouping
