import Cryptomeria.Lib.WriteLog

/-!
# Selections of a log

A *selection* goes through a list and keeps some of its elements; the verdict on an element may
depend on the elements before it. Each element stands for a write, and what counts of a selection
is the last write it keeps at each key.

A more generous verdict keeps more elements. `Selects.getD_last_eq_iff` says when that makes no
difference at a key: each element that only the second selection keeps is followed by another one
at its key, or repeats the write that stands before it.
-/

set_option autoImplicit false

namespace WriteLog

variable {α K V : Type}

/-- `sel` keeps an element if the verdict lets it through, given the elements before it. -/
structure Selects (verdict : List α → α → Bool) (sel : List α → List α) : Prop where
  nil : sel [] = []
  concat : ∀ es e, sel (es ++ [e]) = sel es ++ if verdict es e then [e] else []

/-- Selecting from a filtered list is a selection from the list. -/
theorem Selects.comp_filter {verdict : List α → α → Bool} {sel : List α → List α}
    (h : Selects verdict sel) (p : α → Bool) :
    Selects (fun pre e => p e && verdict (pre.filter p) e) (fun es => sel (es.filter p)) := by
  refine ⟨h.nil, fun es e => ?_⟩
  rw [List.filter_append]
  cases hp : p e with
  | true =>
    rw [List.filter_singleton, hp, cond_true, h.concat, Bool.true_and]
  | false =>
    rw [List.filter_singleton, hp, cond_false]
    simp

theorem Selects.sublist {verdict : List α → α → Bool} {sel : List α → List α}
    (h : Selects verdict sel) (es : List α) : (sel es).Sublist es := by
  induction es using List.reverseRecOn with
  | nil => rw [h.nil]
  | append_singleton es e ih =>
    rw [h.concat]
    refine ih.append ?_
    split
    · exact List.Sublist.refl _
    · exact List.nil_sublist _

/-- An element of a list is in the list without its last element, or is the last one. -/
theorem concat_eq_split_iff {es pre post : List α} {e e₀ : α} :
    es ++ [e₀] = pre ++ e :: post ↔
      (post = [] ∧ pre = es ∧ e = e₀) ∨ ∃ post', post = post' ++ [e₀] ∧ es = pre ++ e :: post' := by
  constructor
  · intro h
    rcases List.eq_nil_or_concat post with rfl | ⟨post', last, rfl⟩
    · obtain ⟨rfl, he⟩ := List.append_inj' h rfl
      exact Or.inl ⟨rfl, rfl, (List.singleton_inj.mp he).symm⟩
    · have hsplit : es ++ [e₀] = (pre ++ e :: post') ++ [last] := by simpa using h
      obtain ⟨rfl, he⟩ := List.append_inj' hsplit rfl
      rw [List.singleton_inj.mp he]
      exact Or.inr ⟨post', List.concat_eq_append, rfl⟩
  · rintro (⟨rfl, rfl, rfl⟩ | ⟨post', rfl, rfl⟩)
    · rfl
    · simp

/-- A later element at the key of `e` is let through. -/
def Followed (verdict : List α → α → Bool) (w : α → K × Option V) (pre : List α) (e : α)
    (post : List α) : Prop :=
  ∃ mid e' post', post = mid ++ e' :: post' ∧ (w e').1 = (w e).1 ∧
    verdict (pre ++ e :: mid) e' = true

/-- The element is let through, and no later one at its key is. -/
def Stands (verdict : List α → α → Bool) (w : α → K × Option V) (es : List α) (e : α) : Prop :=
  ∃ pre post, es = pre ++ e :: post ∧ verdict pre e = true ∧ ¬ Followed verdict w pre e post

/-- An element at `k` that only the second verdict lets through is followed by another one, or
repeats the write that stands before it. -/
def Settled (verdict verdict' : List α → α → Bool) (w : α → K × Option V) (es : List α)
    (k : K) : Prop :=
  ∀ pre e post, es = pre ++ e :: post → (w e).1 = k → verdict pre e = false →
    verdict' pre e = true →
      Followed verdict' w pre e post ∨ ∃ e', w e' = w e ∧ Stands verdict w pre e'

section Concat

variable {verdict verdict' : List α → α → Bool} {w : α → K × Option V}

theorem not_followed_nil {pre : List α} {e : α} : ¬ Followed verdict w pre e [] := by
  rintro ⟨mid, e', post', h, -⟩
  simp at h

theorem followed_concat {pre post : List α} {e e₀ : α} :
    Followed verdict w pre e (post ++ [e₀]) ↔
      Followed verdict w pre e post ∨
        ((w e₀).1 = (w e).1 ∧ verdict (pre ++ e :: post) e₀ = true) := by
  constructor
  · rintro ⟨mid, e', post', hsplit, hkey, hpass⟩
    rcases concat_eq_split_iff.mp hsplit with ⟨rfl, rfl, rfl⟩ | ⟨post'', rfl, rfl⟩
    · exact Or.inr ⟨hkey, hpass⟩
    · exact Or.inl ⟨mid, e', post'', rfl, hkey, hpass⟩
  · rintro (⟨mid, e', post', rfl, hkey, hpass⟩ | ⟨hkey, hpass⟩)
    · exact ⟨mid, e', post' ++ [e₀], by simp, hkey, hpass⟩
    · exact ⟨post, e₀, [], rfl, hkey, hpass⟩

theorem not_stands_nil {e : α} : ¬ Stands verdict w [] e := by
  rintro ⟨pre, post, h, -⟩
  simp at h

theorem stands_concat {es : List α} {e e₀ : α} :
    Stands verdict w (es ++ [e₀]) e ↔
      (Stands verdict w es e ∧ ¬((w e₀).1 = (w e).1 ∧ verdict es e₀ = true)) ∨
        (e = e₀ ∧ verdict es e₀ = true) := by
  constructor
  · rintro ⟨pre, post, hsplit, hpass, hlast⟩
    rcases concat_eq_split_iff.mp hsplit with ⟨rfl, rfl, rfl⟩ | ⟨post', rfl, rfl⟩
    · exact Or.inr ⟨rfl, hpass⟩
    · rw [followed_concat, not_or] at hlast
      exact Or.inl ⟨⟨pre, post', rfl, hpass, hlast.1⟩, hlast.2⟩
  · rintro (⟨⟨pre, post, rfl, hpass, hlast⟩, hnew⟩ | ⟨rfl, hpass⟩)
    · refine ⟨pre, post ++ [e₀], by simp, hpass, ?_⟩
      rw [followed_concat, not_or]
      exact ⟨hlast, hnew⟩
    · exact ⟨es, [], rfl, hpass, not_followed_nil⟩

theorem settled_nil {k : K} : Settled verdict verdict' w [] k := by
  intro pre e post h
  simp at h

/-- An element that the second verdict lets through settles everything before it at its key. -/
theorem settled_concat_of_pass {es : List α} {e₀ : α} {k : K} (hk : (w e₀).1 = k)
    (hpass : verdict' es e₀ = true) :
    Settled verdict verdict' w (es ++ [e₀]) k ↔
      (verdict es e₀ = false → ∃ e', w e' = w e₀ ∧ Stands verdict w es e') := by
  constructor
  · intro h hrefused
    rcases h es e₀ [] rfl hk hrefused hpass with hfollowed | hstands
    · exact absurd hfollowed not_followed_nil
    · exact hstands
  · intro h pre e post hsplit hkey hrefused hpass'
    rcases concat_eq_split_iff.mp hsplit with ⟨rfl, rfl, rfl⟩ | ⟨post', rfl, rfl⟩
    · exact Or.inr (h hrefused)
    · refine Or.inl (followed_concat.mpr (Or.inr ⟨?_, hpass⟩))
      rw [hk, hkey]

theorem settled_concat_of_not_pass {es : List α} {e₀ : α} {k : K}
    (h₀ : (w e₀).1 = k → verdict' es e₀ = false) :
    Settled verdict verdict' w (es ++ [e₀]) k ↔ Settled verdict verdict' w es k := by
  constructor
  · intro h pre e post hsplit hkey hrefused hpass
    have hlonger : es ++ [e₀] = pre ++ e :: (post ++ [e₀]) := by
      rw [hsplit]
      simp
    rcases h pre e (post ++ [e₀]) hlonger hkey hrefused hpass with hfollowed | hstands
    · rcases followed_concat.mp hfollowed with hfollowed | ⟨hkey', hpass'⟩
      · exact Or.inl hfollowed
      · rw [← hsplit, h₀ (hkey'.trans hkey)] at hpass'
        simp at hpass'
    · exact Or.inr hstands
  · intro h pre e post hsplit hkey hrefused hpass
    rcases concat_eq_split_iff.mp hsplit with ⟨rfl, rfl, rfl⟩ | ⟨post', rfl, rfl⟩
    · rw [h₀ hkey] at hpass
      simp at hpass
    · rcases h pre e post' rfl hkey hrefused hpass with hfollowed | hstands
      · exact Or.inl (followed_concat.mpr (Or.inl hfollowed))
      · exact Or.inr hstands

end Concat

section Compare

variable [DecidableEq K] {verdict verdict' : List α → α → Bool} {sel sel' : List α → List α}
  {w : α → K × Option V}

theorem Selects.last_concat (h : Selects verdict sel) (es : List α) (e : α) (k : K) :
    last ((sel (es ++ [e])).map w) k
      = if (w e).1 = k ∧ verdict es e = true then some (w e).2 else last ((sel es).map w) k := by
  rw [h.concat, List.map_append, last_append]
  by_cases hpass : verdict es e = true
  · by_cases hkey : (w e).1 = k <;> simp [last, hpass, hkey]
  · simp [hpass]

/-- What a selection leaves at a key is the write that stands. -/
theorem Selects.last_eq_some_iff (h : Selects verdict sel) {es : List α} {k : K} {o : Option V} :
    last ((sel es).map w) k = some o ↔ ∃ e, w e = (k, o) ∧ Stands verdict w es e := by
  induction es using List.reverseRecOn with
  | nil =>
    simp only [h.nil, List.map_nil, last_nil, reduceCtorEq, false_iff, not_exists, not_and]
    exact fun e _ => not_stands_nil
  | append_singleton es e₀ ih =>
    rw [h.last_concat]
    split
    · rename_i hnew
      obtain ⟨hkey, hpass⟩ := hnew
      constructor
      · intro ho
        refine ⟨e₀, ?_, stands_concat.mpr (Or.inr ⟨rfl, hpass⟩)⟩
        rw [← hkey, ← Option.some_inj.mp ho]
      · rintro ⟨e, hw, hstands⟩
        rcases stands_concat.mp hstands with ⟨-, hlast⟩ | ⟨rfl, -⟩
        · refine absurd ⟨?_, hpass⟩ hlast
          rw [hkey, hw]
        · rw [hw]
    · rename_i hold
      rw [ih]
      refine exists_congr fun e => and_congr_right fun hw => ?_
      rw [stands_concat]
      constructor
      · intro hstands
        refine Or.inl ⟨hstands, fun hnew => hold ⟨?_, hnew.2⟩⟩
        rw [hnew.1, hw]
      · rintro (⟨hstands, -⟩ | ⟨rfl, hpass⟩)
        · exact hstands
        · exact absurd ⟨by rw [hw], hpass⟩ hold

/-- **When a more generous selection makes no difference** at a key that held `o`. What only the
second one lets through is a write that stores a value where nothing was held. -/
theorem Selects.getD_last_eq_iff (h : Selects verdict sel) (h' : Selects verdict' sel')
    {es : List α} {k : K} {o : Option V}
    (hle : ∀ pre, ∀ e ∈ es, (w e).1 = k → verdict pre e = true → verdict' pre e = true)
    (hnew : ∀ pre, ∀ e ∈ es, (w e).1 = k → verdict pre e = false → verdict' pre e = true →
      o = none ∧ (w e).2 ≠ none) :
    (last ((sel' es).map w) k).getD o = (last ((sel es).map w) k).getD o ↔
      Settled verdict verdict' w es k := by
  induction es using List.reverseRecOn with
  | nil =>
    rw [h.nil, h'.nil]
    exact iff_of_true rfl settled_nil
  | append_singleton es e₀ ih =>
    have hmem : e₀ ∈ es ++ [e₀] := by simp
    replace ih := ih (fun pre e he => hle pre e (List.mem_append_left _ he))
      (fun pre e he => hnew pre e (List.mem_append_left _ he))
    rw [h.last_concat, h'.last_concat]
    -- the last element decides if the second verdict keeps it; otherwise the induction does
    by_cases hkey : (w e₀).1 = k
    · cases hpass' : verdict' es e₀ with
      | true =>
        rw [settled_concat_of_pass hkey hpass']
        cases hpass : verdict es e₀ with
        | true => simp [hkey]
        | false =>
          obtain ⟨rfl, hstores⟩ := hnew es e₀ hmem hkey hpass hpass'
          simp only [hkey, and_true, if_true, Option.getD_some, Bool.false_eq_true, and_false,
            if_false, true_implies]
          -- only a write that stands can store the same value
          have hsame : (w e₀).2 = (last ((sel es).map w) k).getD none ↔
              last ((sel es).map w) k = some (w e₀).2 := by
            cases last ((sel es).map w) k with
            | none => simpa using hstores
            | some o => simp [eq_comm]
          rw [hsame, h.last_eq_some_iff, ← hkey]
      | false =>
        have hpass : verdict es e₀ = false := by
          by_contra hpass
          have hmore := hle es e₀ hmem hkey (by simpa using hpass)
          rw [hpass'] at hmore
          simp at hmore
        rw [settled_concat_of_not_pass fun _ => hpass', hpass]
        simpa using ih
    · rw [settled_concat_of_not_pass fun h => absurd h hkey]
      simpa [hkey] using ih

end Compare

end WriteLog
