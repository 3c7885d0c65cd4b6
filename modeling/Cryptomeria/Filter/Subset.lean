import Cryptomeria.Exchange
import Cryptomeria.Lob.Windows

/-!
# A filtered book beside an unfiltered one

The same messages go into two books, one with a pre-filter and one without. Under `MaxLevel` the
filtered book stays a part of the other one (`maxLevel_subset`): a price it holds is never refused
again, so the writes it skips are all at prices it does not hold.

Under `MaxLevelPct` a held price can fall out of the window when the best price moves. It stays in
the filtered book, but a new size for it is refused. `maxLevelPct_subset_iff` says that this is
the only way in which the filtered book goes wrong.
-/

set_option autoImplicit false

namespace Cryptomeria

open WriteLog

namespace BookModel

variable {x : BookModel} {msg : x.Msg} {p : x.Book × x.Book} {s : Side} {f : LobFilter}

/-! ## Snapshots -/

theorem keys_stores_sublist (es : List (F64 × F64)) :
    ((stores es).map Prod.fst).Sublist (es.map Prod.fst) := by
  rw [stores_eq_writes, writes_map_fst]
  exact List.filter_sublist.map _

theorem stores_subset {es es' : List (F64 × F64)} (h : es ⊆ es') : stores es ⊆ stores es' :=
  List.map_subset _ fun _ he =>
    List.mem_filter.mpr ⟨h (List.mem_of_mem_filter he), (List.mem_filter.mp he).2⟩

/-- A snapshot keeps the inclusion, unless the filter drops all of it and so leaves old levels
standing. -/
theorem included_snapshot (hk : x.kind msg = .snapshot) (hwf : x.WellFormed msg)
    (hinc : Included (x.side p.1 s) (x.side p.2 s))
    (hnone : x.snapshot msg (some f) s = none →
      x.snapshot msg none s = none ∨ x.side p.1 s = ∅) :
    Included (x.side (x.stepBoth f p msg).1 s) (x.side (x.stepBoth f p msg).2 s) := by
  simp only [stepBoth, x.side_snapshot _ _ _ _ hk]
  rcases x.snapshot_unfiltered msg s hk (hwf.fits hk) with hall | ⟨-, hkeep⟩
  · rw [hall]
    cases hf : x.snapshot msg (some f) s with
    | none =>
      rcases hnone hf with h | hempty
      · rw [hall] at h
        simp at h
      · rw [hempty]
        exact Included.empty _
    | some es =>
      have hsub := stores_subset (x.snapshot_subset msg f s es hk hf)
      exact included_replay_of_subset ((hwf.nodup s).sublist (keys_stores_sublist _)) hsub
  · rw [hkeep, hkeep]
    exact hinc

/-! ## Updates -/

theorem nodup_keys_writes (hwf : x.WellFormed msg) (s : Side) :
    ((writes (x.entries msg s)).map Prod.fst).Nodup := by
  rw [writes_map_fst]
  exact hwf.nodup s

theorem writes_admitted_sublist (f : LobFilter) (m : Levels s) :
    (writes (admitted x.grow f m 0 (x.entries msg s))).Sublist (writes (x.entries msg s)) :=
  (admitted_sublist _ _ _ _ _).map _

/-- Among entries with different prices, a write is missing exactly when its entry was refused. -/
theorem writeOf_mem_writes_iff {es es' : List (F64 × F64)} {e : F64 × F64}
    (hnd : (es.map Prod.fst).Nodup) (hsub : es' ⊆ es) (he : e ∈ es) :
    writeOf e ∈ writes es' ↔ e ∈ es' := by
  constructor
  · intro h
    obtain ⟨e', he', heq⟩ := List.mem_map.mp h
    have hkey : e'.1 = e.1 := congrArg (fun w : F64 × Option F64 => w.1) heq
    rwa [← List.inj_on_of_nodup_map hnd (hsub he') he hkey]
  · exact fun h => List.mem_map_of_mem h

theorem side_stepBoth_update (hk : x.kind msg = .update) (f : LobFilter) (p : x.Book × x.Book)
    (s : Side) :
    x.side (x.stepBoth f p msg).1 s = replay (x.side p.1 s)
        (writes (admitted x.grow f (x.side p.1 s) 0 (x.entries msg s))) ∧
      x.side (x.stepBoth f p msg).2 s = replay (x.side p.2 s) (writes (x.entries msg s)) :=
  ⟨x.side_update _ _ _ _ hk, x.side_update _ _ _ _ hk⟩

/-! ## `MaxLevel` -/

section MaxLevel

variable {n : ℕ}

/-- `MaxLevel` never refuses a price that is held. -/
theorem included_update_maxLevel (hk : x.kind msg = .update) (hwf : x.WellFormed msg)
    (hinc : Included (x.side p.1 s) (x.side p.2 s)) :
    Included (x.side (x.stepBoth (.maxLevel n) p msg).1 s)
      (x.side (x.stepBoth (.maxLevel n) p msg).2 s) := by
  obtain ⟨hleft, hright⟩ := side_stepBoth_update hk (.maxLevel n) p s
  rw [hleft, hright]
  refine hinc.replay_sublist (writes_admitted_sublist _ _) (nodup_keys_writes hwf s) ?_
  intro w hw hout hheld
  obtain ⟨e, he, rfl⟩ := List.mem_map.mp hw
  have hrefused : e ∉ admitted x.grow (.maxLevel n) (x.side p.1 s) 0 (x.entries msg s) :=
    fun h => hout (List.mem_map_of_mem h)
  obtain ⟨count, hadm⟩ := refused_of_not_mem_admitted he hrefused
  rw [admits_maxLevel] at hadm
  have hcontains : (x.side p.1 s).contains e.1 = true := hheld
  simp [hcontains] at hadm

/-- With `MaxLevel(0)` only removals pass, so an empty side stays empty. -/
theorem admitted_maxLevel_zero {grow : Bool} {extra : ℕ} {es : List (F64 × F64)} :
    ∀ e ∈ admitted grow (.maxLevel 0) (∅ : Levels s) extra es, e.2.eq F64.zero = true := by
  induction es generalizing extra with
  | nil => simp [admitted]
  | cons e es ih =>
    rw [admitted]
    split
    · rename_i hadm
      rw [admits_maxLevel] at hadm
      exact List.forall_mem_cons.mpr ⟨by simpa using hadm, ih⟩
    · exact ih

theorem replay_removals {es : List (F64 × F64)} (h : ∀ e ∈ es, e.2.eq F64.zero = true) :
    replay (∅ : Levels s) (writes es) = ∅ := by
  induction es with
  | nil => rfl
  | cons e es ih =>
    obtain ⟨he, hes⟩ := List.forall_mem_cons.mp h
    rw [writes, List.map_cons, replay_cons, writeOf, if_pos he]
    rw [show write (∅ : Levels s) (e.1, none) = ∅ from Std.ExtTreeMap.erase_empty]
    exact ih hes

theorem side_empty_step (hk : x.kind msg ≠ .order) (hempty : ∀ s, x.side p.1 s = ∅) (s : Side) :
    x.side (x.stepBoth (.maxLevel 0) p msg).1 s = ∅ := by
  cases hkind : x.kind msg with
  | snapshot =>
    rw [stepBoth, x.side_snapshot _ _ _ _ hkind, hempty s]
    cases hs : x.snapshot msg (some (.maxLevel 0)) s with
    | none => rfl
    | some es =>
      have hlen := x.snapshot_maxLevel_length msg 0 s es hkind hs
      rw [List.length_eq_zero_iff.mp (Nat.le_zero.mp hlen)]
      rfl
  | update =>
    rw [(side_stepBoth_update hkind _ p s).1, hempty s]
    exact replay_removals admitted_maxLevel_zero
  | order => exact absurd hkind hk
  | idle => rw [stepBoth, x.side_idle _ _ _ _ hkind, hempty s]

theorem subset_step_maxLevel (hwf : x.WellFormed msg)
    (hzero : n = 0 → ∀ s, x.side p.1 s = ∅) (hsub : x.Subset p) :
    x.Subset (x.stepBoth (.maxLevel n) p msg) := by
  intro s
  cases hk : x.kind msg with
  | snapshot =>
    refine included_snapshot hk hwf (hsub s) fun hnone => ?_
    rcases x.snapshot_maxLevel msg n s hk hnone with hkeep | ⟨hblank, hn | hpos⟩
    · exact Or.inl hkeep
    · exact Or.inr (hzero hn s)
    · obtain ⟨e, he, hpositive⟩ := hwf.positive hk s hblank
      rw [hpos e he] at hpositive
      simp at hpositive
  | update => exact included_update_maxLevel hk hwf (hsub s)
  | order => exact absurd hk hwf.notOrder
  | idle =>
    simp only [stepBoth, x.side_idle _ _ _ _ hk]
    exact hsub s

/-- What carries the run: the inclusion, and for `MaxLevel(0)` that the filtered book is empty. -/
theorem always_subset_maxLevel (n : ℕ) {msgs : List x.Msg}
    (hwf : ∀ msg ∈ msgs, x.WellFormed msg) :
    Trace.Always (x.stepBoth (.maxLevel n)) x.Subset (x.new, x.new) msgs := by
  have hrun : Trace.Always (x.stepBoth (.maxLevel n))
      (fun p => x.Subset p ∧ (n = 0 → ∀ s, x.side p.1 s = ∅)) (x.new, x.new) msgs := by
    refine Trace.always_of_inductive ⟨subset_new, fun _ => x.side_new⟩ hwf ?_
    rintro p msg ⟨hsub, hzero⟩ hmsg
    refine ⟨subset_step_maxLevel hmsg hzero hsub, ?_⟩
    rintro rfl
    exact side_empty_step hmsg.notOrder (hzero rfl)
  exact hrun.mono fun _ h => h.1

end MaxLevel

/-! ## `MaxLevelPct` -/

section MaxLevelPct

variable {pct : F64} {ar : Arithmetic}

theorem admitted_maxLevelPct {grow : Bool} {m : Levels s} {extra : ℕ} {es : List (F64 × F64)} :
    admitted grow (.maxLevelPct pct ar) m extra es
      = es.filter (admits (.maxLevelPct pct ar) m 0) := by
  induction es generalizing extra with
  | nil => rfl
  | cons e es ih =>
    rw [admitted, List.filter_cons, admits_maxLevelPct_congr extra 0, ih, ih]

theorem admits_maxLevelPct_eq_false {m : Levels s} {e : F64 × F64} :
    admits (.maxLevelPct pct ar) m 0 e = false ↔ e.2.eq F64.zero = false ∧
      ∃ best, m.best = some best ∧ s.inWindow ar pct best e.1 = false := by
  cases hz : e.2.eq F64.zero <;> cases hb : m.best <;> cases s <;>
    simp [admits, LobFilter.shouldInclude, hz, hb, Side.inWindow, Side.within, Side.threshold]

/-- No entry gives a new size to a held price that has left the window of the best price. -/
def KeepsUp (pct : F64) (m : Levels s) (es : List (F64 × F64)) : Prop :=
  ∀ e ∈ es, ∀ v best, m[e.1]? = some v → m.best = some best →
    s.inWindow .double pct best e.1 = false → e.2.eq F64.zero = false → e.2 = v

theorem included_update_maxLevelPct_iff (hk : x.kind msg = .update) (hwf : x.WellFormed msg)
    (hinc : Included (x.side p.1 s) (x.side p.2 s)) :
    Included (x.side (x.stepBoth (.maxLevelPct pct) p msg).1 s)
        (x.side (x.stepBoth (.maxLevelPct pct) p msg).2 s)
      ↔ KeepsUp pct (x.side p.1 s) (x.entries msg s) := by
  obtain ⟨hleft, hright⟩ := side_stepBoth_update hk (.maxLevelPct pct) p s
  rw [hleft, hright, included_replay_sublist_iff hinc (writes_admitted_sublist _ _)
    (nodup_keys_writes hwf s)]
  have hrefused : ∀ e ∈ x.entries msg s,
      (writeOf e ∉ writes (admitted x.grow (.maxLevelPct pct) (x.side p.1 s) 0 (x.entries msg s))
        ↔ admits (.maxLevelPct pct) (x.side p.1 s) 0 e = false) := by
    intro e he
    rw [writeOf_mem_writes_iff (hwf.nodup s) (admitted_sublist _ _ _ _ _).subset he,
      admitted_maxLevelPct, List.mem_filter]
    simp [he]
  constructor
  · intro h e he v best hv hb hwin hnz
    have hout := (hrefused e he).mpr (admits_maxLevelPct_eq_false.mpr ⟨hnz, best, hb, hwin⟩)
    exact (writeOf_snd_eq_some.mp (h (writeOf e) (List.mem_map_of_mem he) hout v hv)).1
  · intro h w hw hout v hv
    obtain ⟨e, he, rfl⟩ := List.mem_map.mp hw
    obtain ⟨hnz, best, hb, hwin⟩ := admits_maxLevelPct_eq_false.mp ((hrefused e he).mp hout)
    obtain rfl := h e he v best hv hb hwin hnz
    exact writeOf_snd_eq_some.mpr ⟨rfl, hnz⟩

/-- As doubles, all prices of the message are positive numbers: none is so small that it becomes
zero, and none is infinite. -/
def PricesInRange (x : BookModel) (msg : x.Msg) : Prop :=
  ∀ s, ∀ e ∈ x.entries msg s, e.1.round.IsPos

instance (msg : x.Msg) : Decidable (x.PricesInRange msg) :=
  inferInstanceAs (Decidable (∀ s, ∀ e ∈ x.entries msg s, e.1.round.IsPos))

theorem included_snapshot_maxLevelPct {pct : ℚ} (h0 : 0 ≤ pct) (h100 : pct ≤ 100)
    (hk : x.kind msg = .snapshot) (hwf : x.WellFormed msg) (hpos : x.PricesInRange msg)
    (hinc : Included (x.side p.1 s) (x.side p.2 s)) :
    Included (x.side (x.stepBoth (.maxLevelPct (.fin pct)) p msg).1 s)
      (x.side (x.stepBoth (.maxLevelPct (.fin pct)) p msg).2 s) := by
  refine included_snapshot hk hwf hinc fun hnone => ?_
  rcases x.snapshot_maxLevelPct msg (.fin pct) .double s hk hnone with hkeep | ⟨e, he, hout⟩
  · exact Or.inl hkeep
  · have hself := @Side.inWindow_self s .double pct e.1 h0 h100 (hpos s e he)
    rw [hself] at hout
    simp at hout

/-- The condition on one message: it updates no level that is out of the filter's sight. -/
def MsgKeepsUp (pct : F64) (p : x.Book × x.Book) (msg : x.Msg) : Prop :=
  x.kind msg = .update → ∀ s, KeepsUp pct (x.side p.1 s) (x.entries msg s)

theorem subset_step_maxLevelPct_iff {pct : ℚ} (h0 : 0 ≤ pct) (h100 : pct ≤ 100)
    (hwf : x.WellFormed msg) (hpos : x.PricesInRange msg) (hsub : x.Subset p) :
    x.Subset (x.stepBoth (.maxLevelPct (.fin pct)) p msg) ↔ MsgKeepsUp (.fin pct) p msg := by
  cases hk : x.kind msg with
  | snapshot =>
    exact iff_of_true (fun s => included_snapshot_maxLevelPct h0 h100 hk hwf hpos (hsub s))
      (fun h => by rw [hk] at h; simp at h)
  | update =>
    simp only [Subset, MsgKeepsUp, hk, true_implies]
    exact forall_congr' fun s => included_update_maxLevelPct_iff hk hwf (hsub s)
  | order => exact absurd hk hwf.notOrder
  | idle =>
    refine iff_of_true (fun s => ?_) (fun h => by rw [hk] at h; simp at h)
    simp only [stepBoth, x.side_idle _ _ _ _ hk]
    exact hsub s

end MaxLevelPct

end BookModel

/-! ## The three exchanges -/

/-- **The `MaxLevel` pre-filter is a faithful subset.** In every run of an exchange's book, every
level of the book filtered with `MaxLevel(n)` is in the unfiltered book, with the same size. -/
theorem Exchange.maxLevel_subset (x : Exchange) (n : ℕ) (msgs : List x.model.Msg)
    (hwf : ∀ msg ∈ msgs, x.model.WellFormed msg) :
    Trace.Always (x.model.stepBoth (.maxLevel n)) x.model.Subset (x.model.new, x.model.new) msgs :=
  BookModel.always_subset_maxLevel n hwf

/-- A snapshot that the filter cuts to one level, which the next message removes. -/
def replacedLevel : List Exchange.okx.model.Msg :=
  [Okx.booksMsg "snapshot" [("99", "2"), ("100", "1")] [("101", "1")],
    Okx.booksMsg "update" [("100", "0"), ("98", "3")] [("101", "4")]]

theorem Exchange.maxLevel_subset_replacedLevel :
    Trace.Always (Okx.model.stepBoth (.maxLevel 1)) Okx.model.Subset
      (OrderBook.new, OrderBook.new) replacedLevel :=
  Exchange.maxLevel_subset .okx 1 replacedLevel (by decide +kernel)

/-- **A level kept by `MaxLevelPct` is stale exactly when it was updated out of sight.** The
filtered book stays a part of the unfiltered one through a run if and only if no message of the
run gives a new size to a level that the filtered book holds outside the window of its best
price, as `should_include` computes it. -/
theorem Exchange.maxLevelPct_subset_iff (x : Exchange) (pct : ℚ) (h0 : 0 ≤ pct)
    (h100 : pct ≤ 100) (msgs : List x.model.Msg)
    (hwf : ∀ msg ∈ msgs, x.model.WellFormed msg ∧ x.model.PricesInRange msg) :
    Trace.Always (x.model.stepBoth (.maxLevelPct (.fin pct))) x.model.Subset
        (x.model.new, x.model.new) msgs
      ↔ Trace.EachStep (x.model.stepBoth (.maxLevelPct (.fin pct)))
          (BookModel.MsgKeepsUp (.fin pct)) (x.model.new, x.model.new) msgs :=
  Trace.always_iff_eachStep (I := fun _ => True) trivial BookModel.subset_new hwf
    (fun _ _ _ _ _ => trivial)
    (fun _ _ _ hsub h => BookModel.subset_step_maxLevelPct_iff h0 h100 h.1 h.2 hsub)

/-- The bid at 100 is admitted, a bid at 102 moves a window of one percent past it, and then it
changes its size. -/
def movedWindow : List Exchange.okx.model.Msg :=
  [Okx.booksMsg "snapshot" [("100", "1")] [], Okx.booksMsg "update" [("102", "1")] [],
    Okx.booksMsg "update" [("100", "5")] []]

theorem Exchange.maxLevelPct_subset_iff_movedWindow :
    Trace.Always (Okx.model.stepBoth (.maxLevelPct (.fin 1))) Okx.model.Subset
        (OrderBook.new, OrderBook.new) movedWindow
      ↔ Trace.EachStep (Okx.model.stepBoth (.maxLevelPct (.fin 1)))
          (BookModel.MsgKeepsUp (.fin 1)) (OrderBook.new, OrderBook.new) movedWindow :=
  Exchange.maxLevelPct_subset_iff .okx 1 (by norm_num) (by norm_num) movedWindow (by decide +kernel)

theorem Exchange.maxLevelPct_stale :
    ¬ ∀ (x : Exchange) (pct : ℚ), 0 ≤ pct → pct ≤ 100 → ∀ msgs : List x.model.Msg,
      (∀ msg ∈ msgs, x.model.WellFormed msg ∧ x.model.PricesInRange msg) →
      Trace.Always (x.model.stepBoth (.maxLevelPct (.fin pct))) x.model.Subset
        (x.model.new, x.model.new) msgs := by
  intro h
  have hrun := h .okx 1 (by norm_num) (by norm_num) movedWindow (by decide +kernel)
  have hsize := hrun.last .bid (.fin 100) (.fin 1) (by decide +kernel)
  exact absurd hsize (by decide +kernel)

end Cryptomeria
