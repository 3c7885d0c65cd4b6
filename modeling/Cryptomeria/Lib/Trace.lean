import Mathlib

/-!
# Runs of a step function

A machine is a total step function `step : S → E → S`, and a run is a fold of it over a list of
events. Two properties of a run are named here: `Always` says that something holds of the state
at the start and after every event, `EachStep` that something holds of every event together with
the state it meets.

`always_of_inductive` is the invariant rule. `always_iff_eachStep` is the rule for a property
that is *not* an invariant: where a condition on the next event decides, from a good state,
whether the next state is good, the states of a run are all good exactly when all its steps meet
the condition.

`output` is what the steps of a run put out. `eq_append_output` is the rule for a log: where every
step appends to it what the step puts out, a run appends the output of the run. `lockstep` is the
rule for two machines that put out the same.
-/

set_option autoImplicit false

namespace Trace

variable {S E : Type}

/-- `P` holds of the first state of the run and of the state after each event. -/
def Always (step : S → E → S) (P : S → Prop) (s : S) (es : List E) : Prop :=
  ∀ pre, pre <+: es → P (pre.foldl step s)

/-- `C` holds of every event of the run, with the state that the event meets. -/
def EachStep (step : S → E → S) (C : S → E → Prop) (s : S) (es : List E) : Prop :=
  ∀ pre e, pre ++ [e] <+: es → C (pre.foldl step s) e

/-- The machine whose state is its history: for a condition that looks at the events before. -/
def remember (pre : List E) (e : E) : List E := pre ++ [e]

/-- The part of a run from its last event with `p` on; the whole run if it has none. -/
def sinceLast (p : E → Bool) : List E → List E
  | [] => []
  | e :: es => if es.any p then sinceLast p es else e :: es

variable {step : S → E → S} {P I : S → Prop} {C : S → E → Prop} {s : S} {e : E} {es : List E}

@[simp] theorem always_nil : Always step P s [] ↔ P s := by
  constructor
  · exact fun h => h [] List.nil_prefix
  · intro h pre hpre
    rw [List.prefix_nil.mp hpre]
    exact h

@[simp] theorem always_cons : Always step P s (e :: es) ↔ P s ∧ Always step P (step s e) es := by
  constructor
  · intro h
    refine ⟨h [] List.nil_prefix, ?_⟩
    intro pre hpre
    exact h (e :: pre) (List.cons_prefix_cons.mpr ⟨rfl, hpre⟩)
  · rintro ⟨hs, h⟩ pre hpre
    cases pre with
    | nil => exact hs
    | cons e' pre =>
      obtain ⟨rfl, htl⟩ := List.cons_prefix_cons.mp hpre
      exact h pre htl

@[simp] theorem eachStep_nil : EachStep step C s [] := by
  intro pre e hpre
  exact absurd (List.prefix_nil.mp hpre) (by simp)

@[simp] theorem eachStep_cons :
    EachStep step C s (e :: es) ↔ C s e ∧ EachStep step C (step s e) es := by
  constructor
  · intro h
    refine ⟨h [] e (by simp), fun pre e' hpre => h (e :: pre) e' ?_⟩
    exact List.cons_prefix_cons.mpr ⟨rfl, hpre⟩
  · rintro ⟨hs, h⟩ pre e' hpre
    cases pre with
    | nil =>
      obtain ⟨rfl, -⟩ := List.cons_prefix_cons.mp hpre
      exact hs
    | cons e₀ pre =>
      obtain ⟨rfl, htl⟩ := List.cons_prefix_cons.mp hpre
      exact h pre e' htl

theorem eachStep_concat :
    EachStep step C s (es ++ [e]) ↔ EachStep step C s es ∧ C (es.foldl step s) e := by
  induction es generalizing s with
  | nil => simp
  | cons e' es ih =>
    rw [List.cons_append, eachStep_cons, eachStep_cons, ih, List.foldl_cons, and_assoc]

theorem foldl_remember (pre es : List E) : es.foldl remember pre = pre ++ es := by
  induction es generalizing pre with
  | nil => simp
  | cons e es ih => simp [ih, remember]

theorem Always.last (h : Always step P s es) : P (es.foldl step s) := h es List.prefix_rfl

theorem Always.mono {Q : S → Prop} (h : Always step P s es) (hPQ : ∀ s, P s → Q s) :
    Always step Q s es := fun pre hpre => hPQ _ (h pre hpre)

/-- What one of several processes sees of a run is what it would see alone, if the steps of the
others do not change its view and its own steps change it by the view alone. -/
theorem view_foldl_filter {V : Type} {view : S → V} {own : E → Bool}
    (hother : ∀ s e, own e = false → view (step s e) = view s)
    (hown : ∀ s s' e, own e = true → view s = view s' → view (step s e) = view (step s' e))
    {s s' : S} (hview : view s = view s') (es : List E) :
    view (es.foldl step s) = view ((es.filter own).foldl step s') := by
  induction es generalizing s s' with
  | nil => exact hview
  | cons e es ih =>
    rw [List.foldl_cons]
    cases he : own e with
    | true =>
      rw [List.filter_cons_of_pos he, List.foldl_cons]
      exact ih (hown s s' e he hview)
    | false =>
      rw [List.filter_cons_of_neg (by simp [he])]
      exact ih ((hother s e he).trans hview)

theorem sinceLast_concat (p : E → Bool) (es : List E) (e : E) :
    sinceLast p (es ++ [e]) = if p e then [e] else sinceLast p es ++ [e] := by
  induction es with
  | nil => simp [sinceLast]
  | cons e' es ih =>
    rw [List.cons_append, sinceLast, sinceLast, ih, List.any_append]
    cases hp : p e <;> cases hany : es.any p <;> simp [hp]

theorem sinceLast_suffix (p : E → Bool) (es : List E) : sinceLast p es <:+ es := by
  induction es with
  | nil => exact List.suffix_rfl
  | cons e es ih =>
    rw [sinceLast]
    split
    · exact ih.trans (List.suffix_cons e es)
    · exact List.suffix_rfl

/-- A run seen through `φ` is the run of the machine that `φ` maps onto. -/
theorem always_map {S' : Type} {step' : S' → E → S'} {P' : S' → Prop} (φ : S → S') (s : S)
    (hstep : ∀ s e, φ (step s e) = step' (φ s) e) :
    Always step' P' (φ s) es ↔ Always step (fun s => P' (φ s)) s es := by
  induction es generalizing s with
  | nil => simp
  | cons e es ih => rw [always_cons, always_cons, ← hstep, ih]

/-- The invariant rule, for events that meet a side condition `H`. -/
theorem always_of_inductive {H : E → Prop} (hs : I s) (hes : ∀ e ∈ es, H e)
    (hstep : ∀ s e, I s → H e → I (step s e)) : Always step I s es := by
  induction es generalizing s with
  | nil => exact always_nil.mpr hs
  | cons e es ih =>
    have he := hstep s e hs (hes e List.mem_cons_self)
    exact always_cons.mpr ⟨hs, ih he fun e' h => hes e' (List.mem_cons_of_mem _ h)⟩

/-- The invariant rule, where the condition on an event looks at the state that it meets. -/
theorem always_of_eachStep {H : E → Prop} (hs : I s) (hes : ∀ e ∈ es, H e)
    (hC : EachStep step C s es) (hstep : ∀ s e, I s → H e → C s e → I (step s e)) :
    Always step I s es := by
  induction es generalizing s with
  | nil => exact always_nil.mpr hs
  | cons e es ih =>
    obtain ⟨he, hrest⟩ := eachStep_cons.mp hC
    have hnext := hstep s e hs (hes e List.mem_cons_self) he
    exact always_cons.mpr ⟨hs, ih hnext (fun e' h => hes e' (List.mem_cons_of_mem _ h)) hrest⟩

/-- The first bad event makes the first bad state: where, from a good state, the next state is
good exactly when the event meets `C`, all states are good exactly when all events meet it.
`I` is an invariant that the argument for one step may use. -/
theorem always_iff_eachStep {H : E → Prop} (hI : I s) (hP : P s) (hes : ∀ e ∈ es, H e)
    (hinv : ∀ s e, I s → P s → H e → I (step s e))
    (hiff : ∀ s e, I s → P s → H e → (P (step s e) ↔ C s e)) :
    Always step P s es ↔ EachStep step C s es := by
  induction es generalizing s with
  | nil => simp [hP]
  | cons e es ih =>
    have he := hes e List.mem_cons_self
    have hrest : ∀ e' ∈ es, H e' := fun e' h => hes e' (List.mem_cons_of_mem _ h)
    rw [always_cons, eachStep_cons, ← hiff s e hI hP he]
    constructor
    · rintro ⟨-, h⟩
      have hnext : P (step s e) := h [] List.nil_prefix
      exact ⟨hnext, (ih (hinv s e hI hP he) hnext hrest).mp h⟩
    · rintro ⟨hnext, h⟩
      exact ⟨hP, (ih (hinv s e hI hP he) hnext hrest).mpr h⟩

/-- The rule for a machine that writes a history, one entry in a step at most. Where a step that
adds nothing meets `C`, and a step that adds to a good history meets `C` exactly when the history
stays good, all steps meet `C` exactly when the history of the run is good. -/
theorem eachStep_iff_history {B : Type} (history : S → List B) {Good : List B → Prop} (hI : I s)
    (hgood : Good (history s)) (hinit : ∀ bs b, Good (bs ++ [b]) → Good bs)
    (hinv : ∀ s e, I s → I (step s e))
    (hstep : ∀ s e, I s → history (step s e) = history s ∧ C s e ∨
      ∃ b, history (step s e) = history s ++ [b] ∧
        (Good (history s) → (C s e ↔ Good (history s ++ [b])))) :
    EachStep step C s es ↔ Good (history (es.foldl step s)) := by
  have hrun : ∀ es : List E, I (es.foldl step s) := by
    intro es
    induction es using List.reverseRecOn with
    | nil => exact hI
    | append_singleton es e ih =>
      rw [List.foldl_concat]
      exact hinv _ e ih
  induction es using List.reverseRecOn with
  | nil => exact iff_of_true eachStep_nil hgood
  | append_singleton es e ih =>
    rw [eachStep_concat, List.foldl_concat, and_congr_left fun _ => ih]
    rcases hstep _ e (hrun es) with ⟨hsame, hC⟩ | ⟨b, hadds, hiff⟩
    · rw [hsame]
      exact and_iff_left hC
    · rw [hadds]
      constructor
      · rintro ⟨hbefore, hC⟩
        exact (hiff hbefore).mp hC
      · intro hall
        have hbefore := hinit _ b hall
        exact ⟨hbefore, (hiff hbefore).mpr hall⟩

/-! ## What a run puts out -/

section Output

variable {B : Type}

/-- What the steps of a run put out, in order. -/
def output (step : S → E → S) (out : S → E → List B) : S → List E → List B
  | _, [] => []
  | s, e :: es => out s e ++ output step out (step s e) es

variable {out : S → E → List B}

theorem output_append (es es' : List E) :
    output step out s (es ++ es')
      = output step out s es ++ output step out (es.foldl step s) es' := by
  induction es generalizing s with
  | nil => rfl
  | cons e es ih => simp only [List.cons_append, output, List.foldl_cons, ih, List.append_assoc]

theorem output_concat (es : List E) (e : E) :
    output step out s (es ++ [e]) = output step out s es ++ out (es.foldl step s) e := by
  rw [output_append]
  exact congrArg _ (List.append_nil _)

/-- The rule for a log that every step appends to. -/
theorem eq_append_output {D : Type} (log : S → List D) (f : B → List D)
    (hstep : ∀ s e, log (step s e) = log s ++ (out s e).flatMap f) (s : S) (es : List E) :
    log (es.foldl step s) = log s ++ (output step out s es).flatMap f := by
  induction es generalizing s with
  | nil => exact (List.append_nil _).symm
  | cons e es ih =>
    rw [List.foldl_cons, ih, hstep, output, List.flatMap_append, List.append_assoc]

/-- The rule for a counter that every step raises. -/
theorem eq_add_output (count : S → ℕ) (f : B → ℕ)
    (hstep : ∀ s e, count (step s e) = count s + ((out s e).map f).sum) (s : S) (es : List E) :
    count (es.foldl step s) = count s + ((output step out s es).map f).sum := by
  induction es generalizing s with
  | nil => rfl
  | cons e es ih =>
    rw [List.foldl_cons, ih, hstep, output, List.map_append, List.sum_append, Nat.add_assoc]

/-- The rule for a queue that events fill and steps take from. Where no step puts out or leaves
behind more than was queued and came in, in this order, the run puts out no more than came in. -/
theorem output_sublist {D : Type} (queue : S → List D) (input : E → Option D) (f : B → D)
    (hstep : ∀ s e, ((out s e).map f ++ queue (step s e)).Sublist
      (queue s ++ (input e).toList)) (s : S) (es : List E) :
    ((output step out s es).map f ++ queue (es.foldl step s)).Sublist
      (queue s ++ es.filterMap input) := by
  induction es generalizing s with
  | nil => simp [output]
  | cons e es ih =>
    have hinput : (e :: es).filterMap input = (input e).toList ++ es.filterMap input := by
      cases h : input e <;> simp [h]
    have hrest := (ih (step s e)).append_left ((out s e).map f)
    have hfirst := (hstep s e).append_right (es.filterMap input)
    rw [output, List.map_append, List.foldl_cons, hinput]
    simp only [List.append_assoc] at hrest hfirst ⊢
    exact hrest.trans hfirst

/-- The rule for one log among others. All steps put out into one list. Where own steps append to
the log what they put out, and `p` tells their entries from those of the other steps, which leave
the log alone, the log is what `p` lets through of the list. -/
theorem eq_append_filter_output (log : S → List B) {p : B → Bool} {own : E → Prop}
    (hown : ∀ s e, own e → log (step s e) = log s ++ out s e ∧ ∀ b ∈ out s e, p b = true)
    (hother : ∀ s e, ¬ own e → log (step s e) = log s ∧ ∀ b ∈ out s e, p b = false) (s : S)
    (es : List E) : log (es.foldl step s) = log s ++ (output step out s es).filter p := by
  induction es generalizing s with
  | nil => exact (List.append_nil _).symm
  | cons e es ih =>
    rw [List.foldl_cons, ih, output, List.filter_append]
    by_cases he : own e
    · obtain ⟨hlog, hout⟩ := hown s e he
      rw [hlog, List.filter_eq_self.mpr hout, List.append_assoc]
    · obtain ⟨hlog, hout⟩ := hother s e he
      have hnone : (out s e).filter p = [] := by
        simpa only [List.filter_eq_nil_iff, Bool.not_eq_true] using hout
      rw [hlog, hnone, List.nil_append]

/-- The rule for two machines in lockstep: related states stay related, and where single steps put
out the same, so do the runs. -/
theorem lockstep {S' : Type} {step' : S' → E → S'} {out' : S' → E → List B} {R : S → S' → Prop}
    (hstep : ∀ s s' e, R s s' → R (step s e) (step' s' e) ∧ out s e = out' s' e) {s : S} {s' : S'}
    (h : R s s') (es : List E) :
    R (es.foldl step s) (es.foldl step' s') ∧ output step out s es = output step' out' s' es := by
  induction es generalizing s s' with
  | nil => exact ⟨h, rfl⟩
  | cons e es ih =>
    obtain ⟨hnext, hout⟩ := hstep s s' e h
    obtain ⟨hrun, hrest⟩ := ih hnext
    exact ⟨hrun, congrArg₂ (· ++ ·) hout hrest⟩

end Output

/-! ## Paths of a transition relation

What a machine shows to the outside can be a list of labels. That it follows a protocol means that
the labels are those of a path of the protocol. -/

section Path

variable {L : Type} {next : S → L → S → Prop}

/-- The labels along a path. -/
inductive Path (next : S → L → S → Prop) (s : S) : List L → S → Prop
  | nil : Path next s [] s
  | concat {ls : List L} {l : L} {t u : S} (h : Path next s ls t) (hnext : next t l u) :
      Path next s (ls ++ [l]) u

/-- The potential method: where no step spends more than it is paid and the potential falls, what
is spent along a path is paid for, but for the potential at its start. -/
theorem Path.spent_le {H : L → Prop} (φ : S → ℕ) (spent paid : L → ℕ)
    (hstep : ∀ t l u, H l → next t l u → spent l + φ u ≤ paid l + φ t)
    {s t : S} {ls : List L} (h : Path next s ls t) (hls : ∀ l ∈ ls, H l) :
    (ls.map spent).sum + φ t ≤ (ls.map paid).sum + φ s := by
  induction h with
  | nil => simp
  | concat h hnext ih =>
    rename_i ls l t u
    obtain ⟨hbefore, hlast⟩ := List.forall_mem_append.mp hls
    have hpath := ih hbefore
    have hlabel := hstep _ _ _ (hlast l (List.mem_singleton_self l)) hnext
    simp only [List.map_append, List.map_cons, List.map_nil, List.sum_append, List.sum_singleton]
    omega

end Path

end Trace
