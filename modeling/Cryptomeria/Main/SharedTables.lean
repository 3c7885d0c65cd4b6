import Cryptomeria.Main.Totals

/-!
# The tables that the tasks share

All tasks write to one table of levels and one table of trades, a message at a time and in any
order. Each row names the exchange and the instrument of its task, so nothing gets mixed up: the
rows of an instrument, taken out of a shared table, are those that its client has flushed in a run
of its own, in the order of its messages (`Process.shared_tables_run`).
-/

set_option autoImplicit false

namespace Cryptomeria

/-! ## One client -/

/-- A table of the database, as a client fills it. -/
structure Table (R : Type) where
  rows : World → List R
  /-- exchange and instrument -/
  labels : R → List String

def Table.lobLevels : Table LobLevelRow where
  rows := World.lobLevels
  labels row := [row.exchange, row.instId]

def Table.trades : Table TradeRow where
  rows := World.trades
  labels row := [row.exchange, row.instId]

/-- A step of the client adds rows to the table at most, and these carry its labels. -/
def ClientSpec.Labelled (c : ClientSpec) {R : Type} (t : Table R) : Prop :=
  ∀ cfg (st : Client c) e, ∃ new, t.rows (st.step cfg e).world = t.rows st.world ++ new ∧
    ∀ row ∈ new, t.labels row = cfg.labels

/-- The rows of a message carry the labels of the client. -/
structure ClientSpec.Journal.Labelled {c : ClientSpec} (j : c.Journal) : Prop where
  lobRows : ∀ cfg session msg, ∀ row ∈ j.lobRows cfg session msg,
    Table.lobLevels.labels row = cfg.labels
  tradeRows : ∀ cfg session msg, ∀ row ∈ j.tradeRows cfg session msg,
    Table.trades.labels row = cfg.labels

theorem labels_levelRows {cfg : Config} {tsMs : ℕ} {action : String}
    {levels : List (Side × Okx.LobLevel)} {best : Side → Option F64} :
    ∀ row ∈ World.levelRows cfg tsMs action levels best,
      Table.lobLevels.labels row = cfg.labels := by
  intro row hrow
  obtain ⟨l, -, rfl⟩ := List.mem_map.mp hrow
  rfl

theorem Okx.labelled : Okx.journal.Labelled where
  lobRows cfg _ msg := by
    show ∀ row ∈ lobRows cfg msg, Table.lobLevels.labels row = cfg.labels
    unfold lobRows
    cases msg.messageType with
    | l2Snapshot | l2Update => exact labels_levelRows
    | l2 | trade | event | unknown => exact fun _ h => absurd h List.not_mem_nil
  tradeRows cfg _ msg := by
    show ∀ row ∈ tradeRows cfg msg, Table.trades.labels row = cfg.labels
    unfold tradeRows
    cases msg.messageType with
    | trade =>
      intro row hrow
      obtain ⟨trade, -, rfl⟩ := List.mem_map.mp hrow
      rfl
    | l2Snapshot | l2Update | l2 | event | unknown => exact fun _ h => absurd h List.not_mem_nil

theorem Kraken.labelled (rfc3339 : String → Option ℤ) : (Kraken.journal rfc3339).Labelled where
  lobRows cfg _ msg := by
    show ∀ row ∈ lobRows rfc3339 cfg msg, Table.lobLevels.labels row = cfg.labels
    unfold lobRows
    cases msg.messageType with
    | l2Snapshot | l2Update => exact labels_levelRows
    | l2 | trade | event | status | heartbeat | unknown =>
      exact fun _ h => absurd h List.not_mem_nil
  tradeRows cfg _ msg := by
    show ∀ row ∈ tradeRows rfc3339 cfg msg, Table.trades.labels row = cfg.labels
    unfold tradeRows
    cases msg.messageType with
    | trade =>
      intro row hrow
      obtain ⟨trade, -, rfl⟩ := List.mem_map.mp hrow
      rfl
    | l2Snapshot | l2Update | l2 | event | status | heartbeat | unknown =>
      exact fun _ h => absurd h List.not_mem_nil

theorem Bitstamp.labelled : Bitstamp.journal.Labelled where
  lobRows cfg before msg := by
    show ∀ row ∈ (if before.snapshotApplied then lobRows cfg msg else []),
      Table.lobLevels.labels row = cfg.labels
    split
    · unfold lobRows
      cases msg.messageType with
      | l2Snapshot | l2Update => exact labels_levelRows
      | trade | event | unknown => exact fun _ h => absurd h List.not_mem_nil
    · exact fun _ h => absurd h List.not_mem_nil
  tradeRows cfg _ msg := by
    show ∀ row ∈ tradeRows cfg msg, Table.trades.labels row = cfg.labels
    unfold tradeRows
    cases msg.messageType with
    | trade =>
      intro row hrow
      obtain ⟨trade, -, rfl⟩ := List.mem_map.mp hrow
      rfl
    | l2Snapshot | l2Update | event | unknown => exact fun _ h => absurd h List.not_mem_nil

theorem Venue.labelled (rfc3339 : String → Option ℤ) (x : Venue) :
    (x.journal rfc3339).Labelled := by
  cases x with
  | okx => exact Okx.labelled
  | kraken => exact Kraken.labelled rfc3339
  | bitstamp => exact Bitstamp.labelled

namespace ClientSpec.Journal.Labelled

variable {c : ClientSpec} {j : c.Journal} (h : j.Labelled)
include h

theorem lobLevels : c.Labelled Table.lobLevels := by
  intro cfg st e
  have hadds := j.adds_of_records (@Client.records_step _ cfg st e)
  refine ⟨_, hadds.lobLevels, ?_⟩
  intro row hrow
  obtain ⟨handled, -, hmem⟩ := List.mem_flatMap.mp hrow
  unfold lobOf at hmem
  split at hmem
  · exact h.lobRows _ _ _ row hmem
  · cases hmem

theorem trades : c.Labelled Table.trades := by
  intro cfg st e
  have hadds := j.adds_of_records (@Client.records_step _ cfg st e)
  refine ⟨_, hadds.trades, ?_⟩
  intro row hrow
  obtain ⟨handled, -, hmem⟩ := List.mem_flatMap.mp hrow
  unfold tradesOf at hmem
  split at hmem
  · exact h.tradeRows _ _ _ row hmem
  · cases hmem

end ClientSpec.Journal.Labelled

/-! ## One task -/

namespace Task

variable {c : ClientSpec} {R : Type} {u : c.Updates} {uni : Unicode} {cli : CliArgs}
  {ri : ResolvedInstrument}

/-- What the client of the task has written into the table. -/
def rows (t : Table R) : Task c → List R
  | .running _ _ client _ => t.rows client.world
  | .notSpawned | .panicked => []

theorem rows_step {t : Table R} (hc : c.Labelled t) (hempty : t.rows (startingWorld ri) = [])
    (sh : Shared) (task : Task c) (e : TaskEvent c) :
    ∃ new, (step u uni cli ri (sh, task) e).2.rows t = task.rows t ++ new ∧
      ∀ row ∈ new, t.labels row = ri.labels := by
  have hnone : ∀ rows : List R, ∃ new, rows = rows ++ new ∧
      ∀ row ∈ new, t.labels row = ri.labels :=
    fun rows => ⟨[], (List.append_nil rows).symm, fun _ h => absurd h List.not_mem_nil⟩
  cases task with
  | panicked => exact hnone _
  | notSpawned =>
    cases e with
    | handle | write => exact hnone _
    | spawn sender =>
      simp only [step]
      cases websocketUrl ri.region ri.exchange with
      | none => exact hnone _
      | some wsUrl =>
        show ∃ new, t.rows (startingWorld ri) = [] ++ new ∧ _
        rw [hempty]
        exact hnone _
  | running wsUrl sender client pending =>
    cases pending with
    | nil =>
      cases e with
      | spawn | write => exact hnone _
      | handle e => exact hc (cli.config uni ri wsUrl sender) client e
    | cons up pending => cases e <;> exact hnone _

end Task

/-! ## All tasks -/

namespace Process

variable {rfc3339 : String → Option ℤ} {tasks : List ResolvedInstrument} {R : Type}

/-- The rows that a step adds to the table. -/
def flushed (uni : Unicode) (cli : CliArgs) (t : Table R) (st : Process rfc3339 tasks)
    (e : ProcessEvent rfc3339 tasks) : List R :=
  (@Task.rows ((instrumentOf e.task).venue.client rfc3339) R t
    ((step uni cli st e).task e.task)).drop
      (@Task.rows ((instrumentOf e.task).venue.client rfc3339) R t (st.task e.task)).length

/-- The table after a run, in the order in which the rows were flushed. -/
def table (uni : Unicode) (cli : CliArgs) (t : Table R)
    (es : List (ProcessEvent rfc3339 tasks)) : List R :=
  Trace.output (step uni cli) (flushed uni cli t) (run uni cli []) es

variable {uni : Unicode} {cli : CliArgs} {t : Table R}

theorem rows_step (ht : ∀ x : Venue, (x.client rfc3339).Labelled t)
    (hempty : ∀ ri, t.rows (startingWorld ri) = []) (st : Process rfc3339 tasks)
    (e : ProcessEvent rfc3339 tasks) :
    @Task.rows ((instrumentOf e.task).venue.client rfc3339) R t ((step uni cli st e).task e.task)
        = @Task.rows ((instrumentOf e.task).venue.client rfc3339) R t (st.task e.task)
          ++ flushed uni cli t st e ∧
      ∀ row ∈ flushed uni cli t st e, t.labels row = (instrumentOf e.task).labels := by
  have htask : (step uni cli st e).task e.task
      = (Task.step ((instrumentOf e.task).venue.updates rfc3339) uni cli (instrumentOf e.task)
        (st.shared, st.task e.task) e.event).2 := Function.update_self _ _ _
  obtain ⟨new, hnew, hlabels⟩ := @Task.rows_step _ _ ((instrumentOf e.task).venue.updates rfc3339)
    uni cli (instrumentOf e.task) t (ht _) (hempty _) st.shared (st.task e.task) e.event
  rw [← htask] at hnew
  have hflushed : flushed uni cli t st e = new := by
    rw [flushed, hnew, List.drop_left]
  rw [hflushed]
  exact ⟨hnew, hlabels⟩

/-- The rows with the labels of a task are those that its client has written. -/
theorem filter_table (ht : ∀ x : Venue, (x.client rfc3339).Labelled t)
    (hempty : ∀ ri, t.rows (startingWorld ri) = []) {i : Fin tasks.length}
    (hlabels : ∀ j, j ≠ i → (instrumentOf j).labels ≠ (instrumentOf i).labels)
    (es : List (ProcessEvent rfc3339 tasks)) :
    (table uni cli t es).filter (fun row => t.labels row = (instrumentOf i).labels)
      = @Task.rows ((instrumentOf i).venue.client rfc3339) R t ((run uni cli es).task i) := by
  have hown : ∀ (st : Process rfc3339 tasks) e, e.task = i →
      @Task.rows ((instrumentOf i).venue.client rfc3339) R t ((step uni cli st e).task i)
          = @Task.rows ((instrumentOf i).venue.client rfc3339) R t (st.task i)
            ++ flushed uni cli t st e ∧
        ∀ row ∈ flushed uni cli t st e,
          decide (t.labels row = (instrumentOf i).labels) = true := by
    intro st e he
    subst he
    obtain ⟨hrows, hown⟩ := @rows_step _ _ _ uni cli t ht hempty st e
    exact ⟨hrows, fun row hrow => decide_eq_true (hown row hrow)⟩
  have hother : ∀ (st : Process rfc3339 tasks) e, ¬ e.task = i →
      @Task.rows ((instrumentOf i).venue.client rfc3339) R t ((step uni cli st e).task i)
          = @Task.rows ((instrumentOf i).venue.client rfc3339) R t (st.task i) ∧
        ∀ row ∈ flushed uni cli t st e,
          decide (t.labels row = (instrumentOf i).labels) = false := by
    intro st e he
    obtain ⟨-, hother⟩ := @rows_step _ _ _ uni cli t ht hempty st e
    refine ⟨congrArg (Task.rows t) (task_step_other e (Ne.symm he)), ?_⟩
    intro row hrow
    rw [hother row hrow]
    exact decide_eq_false (hlabels e.task he)
  exact (@Trace.eq_append_filter_output _ _ (step uni cli) _ (flushed uni cli t)
    (fun st => @Task.rows ((instrumentOf i).venue.client rfc3339) R t (st.task i))
    (fun row => decide (t.labels row = (instrumentOf i).labels)) (fun e => e.task = i)
    hown hother (run uni cli []) es).symm

/-- **The shared tables.** In any interleaving, the rows with the labels of a task that no other
task has, in the table of levels and in the table of trades, are those that its client has flushed
in a run of its own: message by message, in the order in which it has read them. -/
theorem shared_tables_run {i : Fin tasks.length}
    (hlabels : ∀ j, j ≠ i → (instrumentOf j).labels ≠ (instrumentOf i).labels)
    (es : List (ProcessEvent rfc3339 tasks)) {wsUrl : String} {sender : Bool}
    {client : Client ((instrumentOf i).venue.client rfc3339)} {pending : List Update}
    (htask : (run uni cli es).task i = .running wsUrl sender client pending) :
    let cfg := cli.config uni (instrumentOf i) wsUrl sender
    let journal := (instrumentOf i).venue.journal rfc3339
    ∃ own, client = Client.run _ cfg (startingWorld (instrumentOf i)) own ∧
      let handled := (Client.start _ cfg (startingWorld (instrumentOf i))).handled cfg own
      (table uni cli Table.lobLevels es).filter
          (fun row => Table.lobLevels.labels row = (instrumentOf i).labels)
        = handled.flatMap (journal.lobOf cfg) ∧
      (table uni cli Table.trades es).filter
          (fun row => Table.trades.labels row = (instrumentOf i).labels)
        = handled.flatMap (journal.tradesOf cfg) := by
  intro cfg journal
  have hrun := @isRun_run _ uni cli _ i es
  rw [htask] at hrun
  obtain ⟨own, rfl⟩ := hrun
  have hadds := @ClientSpec.Journal.adds_run _ journal cfg
    (Client.start _ cfg (startingWorld (instrumentOf i))) own
  refine ⟨own, rfl, ?_, ?_⟩
  · rw [filter_table (fun x => (x.labelled rfc3339).lobLevels) (fun _ => rfl) hlabels es, htask]
    exact hadds.lobLevels
  · rw [filter_table (fun x => (x.labelled rfc3339).trades) (fun _ => rfl) hlabels es, htask]
    exact hadds.trades

theorem shared_tables_run_twoTasks :
    let cfg := firstConfig true
    ∃ own, let handled := (Client.start ((instrumentOf firstTask).venue.client fun _ => none) cfg
        (startingWorld (instrumentOf firstTask))).handled cfg own
      (table .ascii {} Table.lobLevels
          (twoTasksRun true ++ snapshotEvents.map firstHandles)).filter
          (fun row => Table.lobLevels.labels row = (instrumentOf firstTask).labels)
        = handled.flatMap (((instrumentOf firstTask).venue.journal fun _ => none).lobOf cfg) := by
  obtain ⟨own, -, hlevels, -⟩ := @shared_tables_run (fun _ => none) _ .ascii {} firstTask
    (by decide +kernel) (twoTasksRun true ++ snapshotEvents.map firstHandles) _ _ _ _ rfl
  exact ⟨own, hlevels⟩

end Process

end Cryptomeria
