import Mathlib

/-!
# Write logs over ordered maps

A *write* names a key and either a value to store or `none`, which takes the key out. Writes
are absolute, not relative: what a key holds after a log is decided by the last write that
names it, and by the map before the log if no write does. `getElem?_replay` is that sentence.

Everything else here is read off it: replaying a log a second time changes nothing
(`replay_idem`), a map that is included in another stays included when both replay the same
log and one of them skips writes at keys it does not hold (`Included.replay_sublist`), and the
number of keys afterwards is counted from the keys the log brings in and takes out
(`size_replay_add_card`).
-/

set_option autoImplicit false

open Std

namespace WriteLog

variable {K V : Type} {cmp : K → K → Ordering}

/-- One write: `none` takes the key out, `some v` stores `v`. -/
def write [TransCmp cmp] (m : ExtTreeMap K V cmp) (w : K × Option V) : ExtTreeMap K V cmp :=
  match w.2 with
  | none => m.erase w.1
  | some v => m.insert w.1 v

/-- The writes of a log, oldest first. -/
def replay [TransCmp cmp] (m : ExtTreeMap K V cmp) (ws : List (K × Option V)) :
    ExtTreeMap K V cmp :=
  ws.foldl write m

/-- What the last write that names `k` says, if any does. -/
def last [DecidableEq K] : List (K × Option V) → K → Option (Option V)
  | [], _ => none
  | w :: ws, k => (last ws k).or (if w.1 = k then some w.2 else none)

section Basic

variable [TransCmp cmp]

@[simp] theorem replay_nil (m : ExtTreeMap K V cmp) : replay m [] = m := rfl

@[simp] theorem replay_cons (m : ExtTreeMap K V cmp) (w : K × Option V) (ws) :
    replay m (w :: ws) = replay (write m w) ws := rfl

theorem replay_append (m : ExtTreeMap K V cmp) (ws ws' : List (K × Option V)) :
    replay m (ws ++ ws') = replay (replay m ws) ws' := by
  simp [replay]

end Basic

section Last

variable [DecidableEq K]

@[simp] theorem last_nil (k : K) : last ([] : List (K × Option V)) k = none := rfl

theorem last_append (ws ws' : List (K × Option V)) (k : K) :
    last (ws ++ ws') k = (last ws' k).or (last ws k) := by
  induction ws with
  | nil => simp
  | cons w ws ih => simp [last, ih, Option.or_assoc]

theorem last_eq_none_iff {ws : List (K × Option V)} {k : K} :
    last ws k = none ↔ ∀ w ∈ ws, w.1 ≠ k := by
  induction ws with
  | nil => simp
  | cons w ws ih =>
    simp only [last, Option.or_eq_none_iff, ih, ite_eq_right_iff, List.forall_mem_cons]
    constructor
    · rintro ⟨hws, hw⟩
      exact ⟨fun h => by simpa using hw h, hws⟩
    · rintro ⟨hw, hws⟩
      exact ⟨hws, fun h => absurd h hw⟩

theorem mem_of_last_eq_some {ws : List (K × Option V)} {k : K} {o : Option V}
    (h : last ws k = some o) : (k, o) ∈ ws := by
  induction ws with
  | nil => simp at h
  | cons w ws ih =>
    rw [last, Option.or_eq_some_iff] at h
    rcases h with h | ⟨-, h⟩
    · exact List.mem_cons_of_mem _ (ih h)
    · split at h
      · rename_i hk
        obtain ⟨k', o'⟩ := w
        simp only [Option.some.injEq] at h hk
        subst h; subst hk
        exact List.mem_cons_self
      · simp at h

/-- In a log that names every key at most once, a write is the last one at its key. -/
theorem last_of_mem_nodup {ws : List (K × Option V)} {k : K} {o : Option V}
    (hnd : (ws.map Prod.fst).Nodup) (hmem : (k, o) ∈ ws) : last ws k = some o := by
  cases hl : last ws k with
  | none => exact absurd rfl (last_eq_none_iff.mp hl _ hmem)
  | some o' =>
    have hmem' := mem_of_last_eq_some hl
    have := List.inj_on_of_nodup_map hnd hmem hmem' rfl
    simp only [Prod.mk.injEq, true_and] at this
    rw [this]

theorem last_filter_key (p : K → Bool) (ws : List (K × Option V)) (k : K) :
    last (ws.filter fun w => p w.1) k = if p k then last ws k else none := by
  induction ws with
  | nil => simp
  | cons w ws ih =>
    rw [List.filter_cons, last]
    by_cases hk : w.1 = k
    · cases hp : p k <;> simp [last, ih, hk, hp]
    · cases hp : p w.1 <;> simp [last, ih, hk]

end Last

section Lookup

variable [TransCmp cmp] [LawfulEqCmp cmp] [DecidableEq K]

theorem getElem?_write (m : ExtTreeMap K V cmp) (w : K × Option V) (k : K) :
    (write m w)[k]? = if w.1 = k then w.2 else m[k]? := by
  obtain ⟨k', o⟩ := w
  cases o with
  | none => simp [write, ExtTreeMap.getElem?_erase, LawfulEqCmp.compare_eq_iff_eq]
  | some v => simp [write, ExtTreeMap.getElem?_insert, LawfulEqCmp.compare_eq_iff_eq]

/-- **Last writer wins.** -/
theorem getElem?_replay (m : ExtTreeMap K V cmp) (ws : List (K × Option V)) (k : K) :
    (replay m ws)[k]? = (last ws k).getD m[k]? := by
  induction ws generalizing m with
  | nil => rfl
  | cons w ws ih =>
    rw [replay_cons, ih, last, getElem?_write]
    cases last ws k with
    | some o => rfl
    | none => by_cases hk : w.1 = k <;> simp [hk]

/-- Where all values of a map have a property, a log keeps it so exactly when the last write at
each key does. -/
theorem forall_replay_iff {m : ExtTreeMap K V cmp} {P : V → Prop}
    (hm : ∀ (k : K) (v : V), m[k]? = some v → P v) (ws : List (K × Option V)) :
    (∀ (k : K) (v : V), (replay m ws)[k]? = some v → P v) ↔
      ∀ k v, last ws k = some (some v) → P v := by
  constructor
  · intro h k v hlast
    apply h k v
    rw [getElem?_replay, hlast]
    rfl
  · intro h k v hv
    rw [getElem?_replay] at hv
    cases hlast : last ws k with
    | none =>
      rw [hlast] at hv
      exact hm k v hv
    | some o =>
      rw [hlast] at hv
      exact h k v (hlast.trans (congrArg some hv))

/-- Absolute writes are idempotent: the log of a state, replayed on that state, is the
identity. -/
theorem replay_idem (m : ExtTreeMap K V cmp) (ws : List (K × Option V)) :
    replay (replay m ws) ws = replay m ws := by
  ext k : 1
  rw [getElem?_replay, getElem?_replay]
  cases last ws k <;> rfl

/-- Replaying a log from too early on, over a state that its first part has led to, gives what
the whole log gives. -/
theorem replay_overlap (m : ExtTreeMap K V cmp) (ws ws' : List (K × Option V)) :
    replay (replay m ws) (ws ++ ws') = replay m (ws ++ ws') := by
  rw [replay_append, replay_idem, replay_append]

/-- On the empty map, leaving out the writes at some keys leaves out these keys. -/
theorem replay_filter_key (p : K → Bool) (ws : List (K × Option V)) :
    replay (∅ : ExtTreeMap K V cmp) (ws.filter fun w => p w.1)
      = (replay ∅ ws).filter fun k _ => p k := by
  ext k : 1
  rw [ExtTreeMap.getElem?_filter', getElem?_replay, getElem?_replay, last_filter_key]
  cases p k <;> rcases last ws k with _ | _ | v <;> simp [Option.filter_some]

theorem mem_replay_iff {m : ExtTreeMap K V cmp} {ws : List (K × Option V)} {k : K} :
    k ∈ replay m ws ↔ (∃ v, last ws k = some (some v)) ∨ (last ws k = none ∧ k ∈ m) := by
  rw [ExtTreeMap.mem_iff_isSome_getElem?, getElem?_replay, ExtTreeMap.mem_iff_isSome_getElem?]
  rcases last ws k with _ | _ | v <;> simp

end Lookup

/-! ## Inclusion -/

/-- Every key of `m` is held by `m'` too, with the same value. -/
def Included [TransCmp cmp] (m m' : ExtTreeMap K V cmp) : Prop :=
  ∀ (k : K) (v : V), m[k]? = some v → m'[k]? = some v

section Inclusion

variable [TransCmp cmp]

theorem Included.refl (m : ExtTreeMap K V cmp) : Included m m := fun _ _ h => h

theorem Included.empty (m : ExtTreeMap K V cmp) : Included ∅ m := by
  intro k v h
  simp at h

variable [LawfulEqCmp cmp] [DecidableEq K]

/-- The map on the left skips some of the writes. Inclusion survives exactly when each
skipped write is at a key the left map does not hold, or writes what is held there. -/
theorem included_replay_sublist_iff {m m' : ExtTreeMap K V cmp} {ws' ws : List (K × Option V)}
    (hinc : Included m m') (hsub : ws'.Sublist ws) (hnd : (ws.map Prod.fst).Nodup) :
    Included (replay m ws') (replay m' ws) ↔
      ∀ w ∈ ws, w ∉ ws' → ∀ v, m[w.1]? = some v → w.2 = some v := by
  have hnd' : (ws'.map Prod.fst).Nodup := hnd.sublist (hsub.map _)
  constructor
  · intro hall w hw hskip v hv
    -- no write of the shorter log names the key, so the left map still holds `v` there
    have hnone : last ws' w.1 = none := by
      rw [last_eq_none_iff]
      intro w' hw' hkey
      have heq := List.inj_on_of_nodup_map hnd (hsub.subset hw') hw hkey
      exact hskip (heq ▸ hw')
    have hleft : (replay m ws')[w.1]? = some v := by
      rw [getElem?_replay, hnone]; exact hv
    have hright := hall _ _ hleft
    rw [getElem?_replay, last_of_mem_nodup (o := w.2) hnd hw] at hright
    exact hright
  · intro hskip k v hv
    rw [getElem?_replay] at hv ⊢
    cases hl' : last ws' k with
    | some o =>
      rw [last_of_mem_nodup hnd (hsub.subset (mem_of_last_eq_some hl'))]
      rw [hl'] at hv
      exact hv
    | none =>
      rw [hl'] at hv
      cases hl : last ws k with
      | none => exact hinc _ _ hv
      | some o =>
        have hmem := mem_of_last_eq_some hl
        have hout : (k, o) ∉ ws' := fun h => last_eq_none_iff.mp hl' _ h rfl
        exact hskip _ hmem hout v hv

/-- The usual case of `included_replay_sublist_iff`: skipped keys are not held at all. -/
theorem Included.replay_sublist {m m' : ExtTreeMap K V cmp} {ws' ws : List (K × Option V)}
    (hinc : Included m m') (hsub : ws'.Sublist ws) (hnd : (ws.map Prod.fst).Nodup)
    (hskip : ∀ w ∈ ws, w ∉ ws' → w.1 ∉ m) : Included (replay m ws') (replay m' ws) := by
  refine (included_replay_sublist_iff hinc hsub hnd).mpr fun w hw hout v hv => ?_
  exact absurd (ExtTreeMap.mem_iff_isSome_getElem?.mpr (by simp [hv])) (hskip w hw hout)

/-- A log of stores, each key once, in any order: the shorter one gives the smaller map. -/
theorem included_replay_of_subset {m : ExtTreeMap K V cmp} {ws' ws : List (K × Option V)}
    (hnd : (ws.map Prod.fst).Nodup) (hsub : ws' ⊆ ws) :
    Included (replay ∅ ws') (replay m ws) := by
  intro k v hv
  rw [getElem?_replay] at hv ⊢
  cases hl' : last ws' k with
  | none => simp [hl'] at hv
  | some o =>
    rw [last_of_mem_nodup hnd (hsub (mem_of_last_eq_some hl'))]
    rw [hl'] at hv
    exact hv

end Inclusion

/-! ## Counting keys -/

section Size

variable [TransCmp cmp] [DecidableEq K]

/-- The keys of a map, as a finite set. -/
def support (m : ExtTreeMap K V cmp) : Finset K := m.keys.toFinset

theorem card_support (m : ExtTreeMap K V cmp) : (support m).card = m.size := by
  rw [support, List.toFinset_card_of_nodup ExtTreeMap.nodup_keys, ExtTreeMap.length_keys]

/-- The keys a log brings in: not held before, and last written with a value. -/
def added (m : ExtTreeMap K V cmp) (ws : List (K × Option V)) : Finset K :=
  (ws.map Prod.fst).toFinset.filter fun k => k ∉ m ∧ (last ws k).join.isSome

/-- The keys a log takes out: held before, and last written with `none`. -/
def removed (m : ExtTreeMap K V cmp) (ws : List (K × Option V)) : Finset K :=
  (ws.map Prod.fst).toFinset.filter fun k => k ∈ m ∧ (last ws k).join.isNone

theorem mem_named_iff {ws : List (K × Option V)} {k : K} :
    k ∈ (ws.map Prod.fst).toFinset ↔ last ws k ≠ none := by
  rw [Ne, last_eq_none_iff]
  simp only [List.mem_toFinset, List.mem_map, not_forall, not_not]
  exact ⟨fun ⟨w, hw, hk⟩ => ⟨w, hw, hk⟩, fun ⟨w, hw, hk⟩ => ⟨w, hw, hk⟩⟩

theorem mem_added {m : ExtTreeMap K V cmp} {ws : List (K × Option V)} {k : K} :
    k ∈ added m ws ↔ k ∉ m ∧ ∃ v, last ws k = some (some v) := by
  rw [added, Finset.mem_filter, mem_named_iff]
  rcases last ws k with _ | _ | v <;> simp

theorem mem_removed {m : ExtTreeMap K V cmp} {ws : List (K × Option V)} {k : K} :
    k ∈ removed m ws ↔ k ∈ m ∧ last ws k = some none := by
  rw [removed, Finset.mem_filter, mem_named_iff]
  rcases last ws k with _ | _ | v <;> simp

variable [LawfulEqCmp cmp]

@[simp] theorem mem_support {m : ExtTreeMap K V cmp} {k : K} : k ∈ support m ↔ k ∈ m := by
  simp [support]

/-- **Counting a replay**: what is held afterwards and what was taken out make up what was
held before and what was brought in. -/
theorem size_replay_add_card (m : ExtTreeMap K V cmp) (ws : List (K × Option V)) :
    (replay m ws).size + (removed m ws).card = m.size + (added m ws).card := by
  have hdisj : Disjoint (support (replay m ws)) (removed m ws) := by
    rw [Finset.disjoint_left]
    intro k hk hr
    rw [mem_support, mem_replay_iff] at hk
    rw [mem_removed] at hr
    rcases hk with ⟨v, hv⟩ | ⟨hn, -⟩
    · rw [hv] at hr; simp at hr
    · rw [hn] at hr; simp at hr
  have hdisj' : Disjoint (support m) (added m ws) := by
    rw [Finset.disjoint_left]
    intro k hk ha
    exact (mem_added.mp ha).1 (mem_support.mp hk)
  have hunion : support (replay m ws) ∪ removed m ws = support m ∪ added m ws := by
    ext k
    simp only [Finset.mem_union, mem_support, mem_replay_iff, mem_removed, mem_added]
    by_cases hm : k ∈ m <;> rcases last ws k with _ | _ | v <;> simp [hm]
  rw [← card_support, ← card_support, ← Finset.card_union_of_disjoint hdisj,
    ← Finset.card_union_of_disjoint hdisj', hunion]

theorem size_replay_empty_le (ws : List (K × Option V)) :
    (replay (∅ : ExtTreeMap K V cmp) ws).size ≤ ws.length := by
  have hcount := size_replay_add_card (∅ : ExtTreeMap K V cmp) ws
  have hle : (added (∅ : ExtTreeMap K V cmp) ws).card ≤ ws.length := by
    refine (Finset.card_filter_le _ _).trans ((List.toFinset_card_le _).trans ?_)
    simp
  simp only [ExtTreeMap.size_empty] at hcount
  omega

end Size

section Listing

variable [TransCmp cmp] [LawfulEqCmp cmp]

/-- Maps with the same entries among those with `p` list these alike. -/
theorem filter_toList_congr {m m' : ExtTreeMap K V cmp} {p : K × V → Bool}
    (h : ∀ k v, p (k, v) = true → (m[k]? = some v ↔ m'[k]? = some v)) :
    m.toList.filter p = m'.toList.filter p := by
  have hnodup : ∀ m : ExtTreeMap K V cmp, (m.toList.filter p).Nodup := by
    intro m
    refine List.Pairwise.filter _ (ExtTreeMap.distinct_keys_toList.imp ?_)
    rintro e e' hne rfl
    exact hne ReflCmp.compare_self
  have hperm : (m.toList.filter p).Perm (m'.toList.filter p) := by
    rw [List.perm_ext_iff_of_nodup (hnodup m) (hnodup m')]
    rintro ⟨k, v⟩
    simp only [List.mem_filter, ExtTreeMap.mem_toList_iff_getElem?_eq_some]
    exact and_congr_left fun hp => h k v hp
  -- both lists are sorted by the keys
  refine hperm.eq_of_pairwise ?_ (ExtTreeMap.ordered_keys_toList.filter _)
    (ExtTreeMap.ordered_keys_toList.filter _)
  intro e e' _ _ hlt hlt'
  exact absurd (TransCmp.lt_trans hlt hlt') (by simp [ReflCmp.compare_self])

/-- Maps that agree on the keys that `f` does not drop look the same through `f`. -/
theorem filterMap_toList_congr {W : Type} {m m' : ExtTreeMap K V cmp} {f : K × V → Option W}
    (h : ∀ k v, (f (k, v)).isSome → m[k]? = m'[k]?) :
    m.toList.filterMap f = m'.toList.filterMap f := by
  have hfilter : ∀ m : ExtTreeMap K V cmp,
      m.toList.filterMap f = (m.toList.filter fun e => (f e).isSome).filterMap f := by
    intro m
    rw [List.filterMap_filter]
    refine List.filterMap_congr fun e _ => ?_
    cases f e <;> rfl
  rw [hfilter m, hfilter m']
  refine congrArg _ (filter_toList_congr fun k v hkept => ?_)
  rw [h k v hkept]

/-- A list in the order of the keys is the listing of the map that has its entries. -/
theorem toList_eq_of_pairwise {m : ExtTreeMap K V cmp} {es : List (K × V)}
    (hsorted : es.Pairwise fun e e' => cmp e.1 e'.1 = .lt)
    (hmem : ∀ k v, m[k]? = some v ↔ (k, v) ∈ es) : m.toList = es := by
  have hnodup : ∀ {es : List (K × V)}, es.Pairwise (fun e e' => cmp e.1 e'.1 = .lt) →
      es.Nodup := by
    intro es h
    refine h.imp ?_
    rintro e e' hlt rfl
    simp [ReflCmp.compare_self] at hlt
  have hperm : m.toList.Perm es := by
    rw [List.perm_ext_iff_of_nodup (hnodup ExtTreeMap.ordered_keys_toList) (hnodup hsorted)]
    rintro ⟨k, v⟩
    rw [ExtTreeMap.mem_toList_iff_getElem?_eq_some, hmem]
  refine hperm.eq_of_pairwise ?_ ExtTreeMap.ordered_keys_toList hsorted
  intro e e' _ _ hlt hlt'
  exact absurd (TransCmp.lt_trans hlt hlt') (by simp [ReflCmp.compare_self])

/-- Entries stored in the order of their keys are listed as they were stored. -/
theorem toList_replay_stored [DecidableEq K] {es : List (K × V)}
    (hsorted : es.Pairwise fun e e' => cmp e.1 e'.1 = .lt) :
    (replay (∅ : ExtTreeMap K V cmp) (es.map fun e => (e.1, some e.2))).toList = es := by
  have hkeys : ((es.map fun e => (e.1, some e.2)).map Prod.fst).Nodup := by
    rw [List.map_map, List.Nodup, List.pairwise_map]
    refine hsorted.imp ?_
    intro e e' hlt heq
    have hself : cmp e.1 e'.1 = .eq := LawfulEqCmp.compare_eq_iff_eq.mpr heq
    rw [hlt] at hself
    simp at hself
  refine toList_eq_of_pairwise hsorted fun k v => ?_
  rw [getElem?_replay]
  constructor
  · intro h
    cases hl : last (es.map fun e => (e.1, some e.2)) k with
    | none => simp [hl] at h
    | some o =>
      obtain ⟨e, he, heq⟩ := List.mem_map.mp (mem_of_last_eq_some hl)
      simp only [Prod.mk.injEq] at heq
      obtain ⟨rfl, rfl⟩ := heq
      rw [hl] at h
      rw [← Option.some.inj h]
      exact he
  · intro h
    have hmem : (k, some v) ∈ es.map fun e => (e.1, some e.2) :=
      List.mem_map.mpr ⟨(k, v), h, rfl⟩
    rw [last_of_mem_nodup hkeys hmem]
    rfl

end Listing

end WriteLog
