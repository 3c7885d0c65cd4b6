import Cryptomeria.Main.Alone

/-!
# The trade counters of the process

Two tasks may have the same labels, and then they raise the same counter of `trades_total`. The
gauges of the two overwrite each other, but no trade is lost: the counter is the sum of what their
clients have counted, but for the trades whose update is not written yet (`Process.trades_run`).
-/

set_option autoImplicit false

namespace Cryptomeria

def Update.isTrade : Update → Bool
  | .trade => true
  | _ => false

/-! ## One counter -/

namespace Shared

/-- The value of `trades_total` under these labels. -/
def tradeCount (labels : List String) (sh : Shared) : ℕ :=
  (sh.metrics.tradesTotal[labels]?).getD 0

theorem tradeCount_congr {labels : List String} {sh sh' : Shared}
    (h : sh'.metrics.tradesTotal = sh.metrics.tradesTotal) :
    sh'.tradeCount labels = sh.tradeCount labels := by
  rw [tradeCount, tradeCount, h]

theorem metrics_modifyStatus (cfg : Config) (f : ClientStatus → ClientStatus) (sh : Shared) :
    (sh.modifyStatus cfg f).metrics = sh.metrics := by
  unfold modifyStatus
  split <;> rfl

/-- A counter goes up with the trades under its labels, and with nothing else. -/
theorem tradeCount_apply (cfg : Config) (sh : Shared) (up : Update) (labels : List String) :
    (sh.apply cfg up).tradeCount labels
      = sh.tradeCount labels + if cfg.labels = labels ∧ up.isTrade = true then 1 else 0 := by
  cases up with
  | trade =>
    by_cases hlabels : cfg.labels = labels
    · subst hlabels
      simp [tradeCount, apply, IntGaugeVec.inc, Update.isTrade]
    · simp [tradeCount, apply, IntGaugeVec.inc, Std.ExtTreeMap.getElem?_insert, hlabels]
  | status st => simp [Update.isTrade, tradeCount, apply]
  | sizes | lastPrice =>
    simp only [Update.isTrade, Bool.false_eq_true, and_false, if_false, Nat.add_zero]
    exact tradeCount_congr (congrArg LobMetrics.tradesTotal (metrics_modifyStatus cfg _ sh))
  | gauge | depth => simp [Update.isTrade, tradeCount, apply]

theorem tradeCount_foldl (cfg : Config) (us : List Update) (sh : Shared) :
    (us.foldl (apply cfg) sh).tradeCount cfg.labels
      = sh.tradeCount cfg.labels + us.countP Update.isTrade := by
  induction us generalizing sh with
  | nil => rfl
  | cons up us ih =>
    rw [List.foldl_cons, ih, tradeCount_apply, List.countP_cons]
    simp only [true_and]
    omega

end Shared

/-! ## One task -/

namespace Task

variable {c : ClientSpec} {u : c.Updates} {uni : Unicode} {cli : CliArgs} {ri : ResolvedInstrument}

/-- The trades that the client of the task has counted. -/
def counted (ri : ResolvedInstrument) : Task c → ℕ
  | .running _ _ client _ => client.world.shared.tradeCount ri.labels
  | .notSpawned | .panicked => 0

/-- Those of them whose update is pending. -/
def unwritten : Task c → ℕ
  | .running _ _ _ pending => pending.countP Update.isTrade
  | .notSpawned | .panicked => 0

theorem tradeCount_startingWorld (ri : ResolvedInstrument) (labels : List String) :
    (startingWorld ri).shared.tradeCount labels = 0 := by
  simp [startingWorld, World.shared, Shared.tradeCount]

/-- What a step of a task counts is written or pending. -/
theorem balance_step (sh : Shared) (task : Task c) (e : TaskEvent c) :
    (step u uni cli ri (sh, task) e).1.tradeCount ri.labels
        + (step u uni cli ri (sh, task) e).2.unwritten + task.counted ri
      = sh.tradeCount ri.labels + task.unwritten
        + (step u uni cli ri (sh, task) e).2.counted ri := by
  cases task with
  | panicked => rfl
  | notSpawned =>
    cases e with
    | handle | write => rfl
    | spawn sender =>
      simp only [step]
      have hsame : ∀ st, ({ sh with status := st } : Shared).tradeCount ri.labels
          = sh.tradeCount ri.labels := fun _ => rfl
      cases websocketUrl ri.region ri.exchange with
      | none => exact congrArg (· + 0) (hsame _)
      | some wsUrl =>
        simp only [counted, unwritten, Client.start, tradeCount_startingWorld]
        exact congrArg (· + 0) (hsame _)
  | running wsUrl sender client pending =>
    cases pending with
    | nil =>
      cases e with
      | spawn | write => rfl
      | handle e =>
        have hclient : (client.step (cli.config uni ri wsUrl sender) e).world.shared.tradeCount
              ri.labels
            = client.world.shared.tradeCount ri.labels
              + (client.updates u (cli.config uni ri wsUrl sender) e).countP Update.isTrade := by
          rw [Client.shared_step u rfl]
          exact Shared.tradeCount_foldl (cli.config uni ri wsUrl sender) _ _
        simp only [step, counted, unwritten, List.countP_nil, hclient]
        omega
    | cons up pending =>
      cases e with
      | spawn | handle => rfl
      | write =>
        have happly := Shared.tradeCount_apply (cli.config uni ri wsUrl sender) sh up ri.labels
        have hlabels : (cli.config uni ri wsUrl sender).labels = ri.labels := rfl
        simp only [hlabels, true_and] at happly
        simp only [step, counted, unwritten, happly, List.countP_cons]
        omega

/-- A task leaves the counters under other labels alone. -/
theorem tradeCount_step_other (sh : Shared) (task : Task c) (e : TaskEvent c)
    {labels : List String} (h : ri.labels ≠ labels) :
    (step u uni cli ri (sh, task) e).1.tradeCount labels = sh.tradeCount labels := by
  cases task with
  | panicked => rfl
  | notSpawned => cases e <;> rfl
  | running wsUrl sender client pending =>
    cases pending with
    | nil => cases e <;> rfl
    | cons up pending =>
      cases e with
      | spawn | handle => rfl
      | write =>
        have happly := Shared.tradeCount_apply (cli.config uni ri wsUrl sender) sh up labels
        have hlabels : (cli.config uni ri wsUrl sender).labels = ri.labels := rfl
        simpa [step, hlabels, h] using happly

/-- The client of the task has come to where it is by a run of its own. -/
def IsRun (uni : Unicode) (cli : CliArgs) (ri : ResolvedInstrument) : Task c → Prop
  | .running wsUrl sender client _ =>
    ∃ own, client = Client.run c (cli.config uni ri wsUrl sender) (startingWorld ri) own
  | .notSpawned | .panicked => True

theorem isRun_step {sh : Shared} {task : Task c} (h : IsRun uni cli ri task) (e : TaskEvent c) :
    IsRun uni cli ri (step u uni cli ri (sh, task) e).2 := by
  cases task with
  | panicked => trivial
  | notSpawned =>
    cases e with
    | handle | write => trivial
    | spawn sender =>
      simp only [step]
      cases websocketUrl ri.region ri.exchange with
      | none => trivial
      | some wsUrl => exact ⟨[], rfl⟩
  | running wsUrl sender client pending =>
    obtain ⟨own, hrun⟩ := h
    cases pending with
    | nil =>
      cases e with
      | spawn | write => exact ⟨own, hrun⟩
      | handle e =>
        refine ⟨own ++ [e], ?_⟩
        rw [hrun, Client.run, Client.run, List.foldl_concat]
    | cons up pending => cases e <;> exact ⟨own, hrun⟩

/-- What such a client has counted are the trades of the messages that it has read. -/
theorem counted_eq (j : c.Journal) {wsUrl : String} {sender : Bool} {pending : List Update}
    (own : List (Event c)) :
    let cfg := cli.config uni ri wsUrl sender
    counted ri (.running wsUrl sender (Client.run c cfg (startingWorld ri) own) pending)
      = (((Client.start c cfg (startingWorld ri)).handled cfg own).map
          fun h => j.counted h.msg).sum := by
  have hadds := (@ClientSpec.Journal.adds_run _ j (cli.config uni ri wsUrl sender)
    (Client.start c (cli.config uni ri wsUrl sender) (startingWorld ri)) own).tradeCount
  have hstart : (startingWorld ri).tradeCount (cli.config uni ri wsUrl sender) = 0 :=
    tradeCount_startingWorld ri ri.labels
  have hworld : (Client.start c (cli.config uni ri wsUrl sender) (startingWorld ri)).world
      = startingWorld ri := rfl
  rw [hworld, hstart, Nat.zero_add] at hadds
  exact hadds

end Task

/-! ## All tasks -/

/-- Two sums whose terms differ at one place only. -/
theorem sum_differing_at {ι : Type} [DecidableEq ι] {s : Finset ι} (f g : ι → ℕ) {i : ι}
    (hi : i ∈ s) (h : ∀ j, j ≠ i → f j = g j) : ∑ j ∈ s, f j + g i = ∑ j ∈ s, g j + f i := by
  have hrest : ∑ j ∈ s.erase i, f j = ∑ j ∈ s.erase i, g j :=
    Finset.sum_congr rfl fun j hj => h j (Finset.ne_of_mem_erase hj)
  rw [← Finset.sum_erase_add s f hi, ← Finset.sum_erase_add s g hi, hrest]
  omega

namespace Process

variable {rfc3339 : String → Option ℤ} {uni : Unicode} {cli : CliArgs}
  {tasks : List ResolvedInstrument}

/-- The tasks with these labels. -/
def sharing (tasks : List ResolvedInstrument) (labels : List String) : Finset (Fin tasks.length) :=
  Finset.univ.filter fun i => (instrumentOf i).labels = labels

/-- The trades under these labels whose update is pending. -/
def unwritten (labels : List String) (st : Process rfc3339 tasks) : ℕ :=
  ∑ i ∈ sharing tasks labels, @Task.unwritten ((instrumentOf i).venue.client rfc3339) (st.task i)

/-- What the clients with these labels have counted. -/
def counted (labels : List String) (st : Process rfc3339 tasks) : ℕ :=
  ∑ i ∈ sharing tasks labels,
    @Task.counted ((instrumentOf i).venue.client rfc3339) (instrumentOf i) (st.task i)

variable {labels : List String} {st : Process rfc3339 tasks}

theorem task_step_other (e : ProcessEvent rfc3339 tasks) {i : Fin tasks.length} (hi : i ≠ e.task) :
    (step uni cli st e).task i = st.task i := Function.update_of_ne hi _ _

/-- A step under other labels touches neither the counter nor the tasks. -/
theorem balance_step_other (e : ProcessEvent rfc3339 tasks)
    (hlabels : (instrumentOf e.task).labels ≠ labels) :
    (step uni cli st e).shared.tradeCount labels = st.shared.tradeCount labels ∧
      (step uni cli st e).unwritten labels = st.unwritten labels ∧
      (step uni cli st e).counted labels = st.counted labels := by
  have hother : ∀ i ∈ sharing tasks labels, (step uni cli st e).task i = st.task i := by
    intro i hi
    refine task_step_other e ?_
    rintro rfl
    exact hlabels (Finset.mem_filter.mp hi).2
  refine ⟨?_, ?_, ?_⟩
  · exact Task.tradeCount_step_other _ _ _ hlabels
  · exact Finset.sum_congr rfl fun i hi => by rw [hother i hi]
  · exact Finset.sum_congr rfl fun i hi => by rw [hother i hi]

/-- The counter under the labels, and what is not written yet, is what the clients have counted. -/
def Balanced (labels : List String) (st : Process rfc3339 tasks) : Prop :=
  st.shared.tradeCount labels + st.unwritten labels = st.counted labels

theorem balanced_step (h : st.Balanced labels) (e : ProcessEvent rfc3339 tasks) :
    (step uni cli st e).Balanced labels := by
  unfold Balanced at h ⊢
  by_cases hlabels : (instrumentOf e.task).labels = labels
  · have hmem : e.task ∈ sharing tasks labels :=
      Finset.mem_filter.mpr ⟨Finset.mem_univ _, hlabels⟩
    have htask : (step uni cli st e).task e.task
        = (Task.step ((instrumentOf e.task).venue.updates rfc3339) uni cli (instrumentOf e.task)
          (st.shared, st.task e.task) e.event).2 := Function.update_self _ _ _
    have hstep := @Task.balance_step _ ((instrumentOf e.task).venue.updates rfc3339) uni cli
      (instrumentOf e.task) st.shared (st.task e.task) e.event
    have hunwritten : (step uni cli st e).unwritten labels + (st.task e.task).unwritten
        = st.unwritten labels + ((step uni cli st e).task e.task).unwritten :=
      sum_differing_at (fun i => ((step uni cli st e).task i).unwritten)
        (fun i => (st.task i).unwritten) hmem fun i hi => by rw [task_step_other e hi]
    have hcounted : (step uni cli st e).counted labels
          + (st.task e.task).counted (instrumentOf e.task)
        = st.counted labels + ((step uni cli st e).task e.task).counted (instrumentOf e.task) :=
      sum_differing_at (fun i => ((step uni cli st e).task i).counted (instrumentOf i))
        (fun i => (st.task i).counted (instrumentOf i)) hmem
        fun i hi => by rw [task_step_other e hi]
    have hshared : (step uni cli st e).shared.tradeCount labels
        = (Task.step ((instrumentOf e.task).venue.updates rfc3339) uni cli (instrumentOf e.task)
          (st.shared, st.task e.task) e.event).1.tradeCount labels := rfl
    rw [hlabels, ← htask, ← hshared] at hstep
    omega
  · obtain ⟨hshared, hunwritten, hcounted⟩ := @balance_step_other _ uni cli _ _ st e hlabels
    rw [hshared, hunwritten, hcounted]
    exact h

theorem isRun_run (i : Fin tasks.length) (es : List (ProcessEvent rfc3339 tasks)) :
    Task.IsRun uni cli (instrumentOf i) ((run uni cli es).task i) := by
  have hstart : Task.IsRun uni cli (instrumentOf i)
      (({ shared := {}, task := fun _ => .notSpawned } : Process rfc3339 tasks).task i) := trivial
  refine (Trace.always_of_inductive
    (I := fun st : Process rfc3339 tasks => Task.IsRun uni cli (instrumentOf i) (st.task i))
    (H := fun _ => True) hstart (fun _ _ => trivial) ?_).last
  intro st e h _
  by_cases hi : i = e.task
  · subst hi
    have hstep := @Task.isRun_step _ ((instrumentOf e.task).venue.updates rfc3339) uni cli _
      st.shared _ h e.event
    simpa only [step, Function.update_self] using hstep
  · rw [task_step_other e hi]
    exact h

theorem balanced_run (es : List (ProcessEvent rfc3339 tasks)) :
    (run uni cli es).Balanced labels := by
  have hstart : ({ shared := {}, task := fun _ => .notSpawned } :
      Process rfc3339 tasks).Balanced labels := by
    have hzero : ({} : Shared).tradeCount labels = 0 := by simp [Shared.tradeCount]
    simp only [Balanced, unwritten, counted, Task.unwritten, Task.counted, hzero,
      Finset.sum_const_zero, Nat.add_zero]
  exact (Trace.always_of_inductive (I := Balanced labels) (H := fun _ => True) hstart
    (fun _ _ => trivial) fun _ e h _ => balanced_step h e).last

/-- **No trade is lost between the tasks.** In any interleaving, and whoever shares the labels, the
counter of `trades_total` under them is what the clients of the tasks with these labels have
counted, but for the updates that are not written yet. What a client has counted is the sum of what
its handler adds for the messages that it has read. -/
theorem trades_run (uni : Unicode) (cli : CliArgs) (labels : List String)
    (es : List (ProcessEvent rfc3339 tasks)) :
    (run uni cli es).shared.tradeCount labels + (run uni cli es).unwritten labels
        = (run uni cli es).counted labels ∧
      ∀ i wsUrl sender client pending,
        (run uni cli es).task i = .running wsUrl sender client pending →
        let cfg := cli.config uni (instrumentOf i) wsUrl sender
        ∃ own, client = Client.run _ cfg (startingWorld (instrumentOf i)) own ∧
          ((run uni cli es).task i).counted (instrumentOf i)
            = (((Client.start _ cfg (startingWorld (instrumentOf i))).handled cfg own).map
                fun h => ((instrumentOf i).venue.journal rfc3339).counted h.msg).sum := by
  refine ⟨balanced_run es, ?_⟩
  intro i wsUrl sender client pending htask
  have hrun := @isRun_run _ uni cli _ i es
  rw [htask] at hrun
  obtain ⟨own, rfl⟩ := hrun
  refine ⟨own, rfl, ?_⟩
  rw [htask]
  exact Task.counted_eq ((instrumentOf i).venue.journal rfc3339) own

end Process

end Cryptomeria
