import Cryptomeria.Client.Journal
import Cryptomeria.Client.Mirror
import Cryptomeria.Main.Tasks

/-!
# A task among others

The process refines its tasks: in any interleaving, what stands under the labels of an instrument is
what a run of its client alone has written, up to the updates of the handler that is at work
(`Process.reports_run`). So what holds of every run of a client holds of what the endpoints report,
whatever the other tasks do. A task without a URL stays as `main` has entered it, and no task runs
the client of another exchange.
-/

set_option autoImplicit false

namespace Cryptomeria

/-- The name under which a client is chosen. -/
def Venue.name : Venue → String
  | okx => "okx"
  | kraken => "kraken"
  | bitstamp => "bitstamp"

/-- A task that has a URL runs the client of its own exchange: the last arm of the `match` in
`main` is not taken for other names. -/
theorem ResolvedInstrument.exchange_eq_name {ri : ResolvedInstrument} {wsUrl : String}
    (h : websocketUrl ri.region ri.exchange = some wsUrl) : ri.exchange = ri.venue.name := by
  have hnames : ri.exchange = "okx" ∨ ri.exchange = "kraken" ∨ ri.exchange = "bitstamp" := by
    unfold websocketUrl at h
    split at h
    all_goals first
      | cases h
        done
      | simp_all
  rcases hnames with hname | hname | hname <;> simp [venue, hname, Venue.name]

/-! ## One client -/

namespace Client

variable {c : ClientSpec} {cfg : Config}

/-- What stands under the labels of the client in its own world. -/
def slice (cfg : Config) (st : Client c) : Slice :=
  st.world.shared.slice cfg.exchange cfg.cliInstrument

theorem slice_foldl_apply (cfg : Config) (us : List Update) (sh : Shared) :
    (us.foldl (Shared.apply cfg) sh).slice cfg.exchange cfg.cliInstrument
      = us.foldl Slice.apply (sh.slice cfg.exchange cfg.cliInstrument) := by
  induction us generalizing sh with
  | nil => rfl
  | cons up us ih => rw [List.foldl_cons, List.foldl_cons, ih, Shared.slice_apply_own]

theorem slice_step (u : c.Updates) (hstatus : cfg.statusHandle = true) (st : Client c)
    (e : Event c) :
    (st.step cfg e).slice cfg = (st.updates u cfg e).foldl Slice.apply (st.slice cfg) := by
  rw [slice, Client.shared_step u hstatus, slice_foldl_apply]
  rfl

/-- An entry is never taken away. -/
theorem isSome_status_foldl (us : List Update) {sl : Slice} (h : sl.status.isSome) :
    (us.foldl Slice.apply sl).status.isSome := by
  induction us generalizing sl with
  | nil => exact h
  | cons up us ih =>
    rw [List.foldl_cons]
    apply ih
    cases up with
    | status st => rfl
    | sizes | lastPrice => simpa only [Slice.apply, Option.isSome_map] using h
    | gauge | depth | trade => exact h

theorem isSome_status_run (u : c.Updates) (hstatus : cfg.statusHandle = true) {w : World}
    (hw : (w.entry cfg).isSome) (es : List (Event c)) :
    ((run c cfg w es).world.entry cfg).isSome := by
  have hstep : ∀ (st : Client c) (e : Event c), (st.slice cfg).status.isSome →
      ((st.step cfg e).slice cfg).status.isSome := by
    intro st e h
    rw [slice_step u hstatus]
    exact isSome_status_foldl _ h
  exact (Trace.always_of_inductive (I := fun st : Client c => ((st.slice cfg).status.isSome : Prop))
    (H := fun _ => True) (s := start c cfg w) hw (fun _ _ => trivial)
    fun st e h _ => hstep st e h).last

end Client

/-! ## One task -/

theorem entry_startingWorld {uni : Unicode} {cli : CliArgs} {ri : ResolvedInstrument}
    {wsUrl : String} {sender : Bool} :
    (startingWorld ri).entry (cli.config uni ri wsUrl sender) = some startingStatus :=
  Std.ExtTreeMap.getElem?_insert_self

theorem showsBlank_startingWorld {uni : Unicode} {cli : CliArgs} {ri : ResolvedInstrument}
    {wsUrl : String} {sender : Bool} :
    (startingWorld ri).ShowsBlank (cli.config uni ri wsUrl sender) := by
  intro entry hentry
  rw [entry_startingWorld] at hentry
  rw [← Option.some.inj hentry]
  exact ⟨⟨OrderBook.totalBidSize_new.symm, OrderBook.totalAskSize_new.symm⟩, rfl⟩

namespace Task

variable {c : ClientSpec} (u : c.Updates) (uni : Unicode) (cli : CliArgs) (ri : ResolvedInstrument)

/-- What a task has written is what a run of its client has. -/
def Reports (sl : Slice) : Task c → Prop
  | .notSpawned => sl = ({} : Shared).slice ri.exchange ri.cliInstId
  | .panicked => websocketUrl ri.region ri.exchange = none ∧
      sl = (startingWorld ri).shared.slice ri.exchange ri.cliInstId
  | .running wsUrl sender client pending =>
    let cfg := cli.config uni ri wsUrl sender
    websocketUrl ri.region ri.exchange = some wsUrl ∧
      (∃ es, client = Client.run c cfg (startingWorld ri) es) ∧
      pending.foldl Slice.apply sl = client.slice cfg

variable {u uni cli ri}

theorem reports_spawn (sender : Bool) :
    let st := step u uni cli ri ({}, .notSpawned) (.spawn sender)
    Reports uni cli ri (st.1.slice ri.exchange ri.cliInstId) st.2 := by
  simp only [step]
  cases hurl : websocketUrl ri.region ri.exchange with
  | none => exact ⟨hurl, rfl⟩
  | some wsUrl => exact ⟨hurl, ⟨[], rfl⟩, rfl⟩

theorem reports_step {sh : Shared} {task : Task c}
    (h : Reports uni cli ri (sh.slice ri.exchange ri.cliInstId) task) (e : TaskEvent c) :
    Reports uni cli ri ((step u uni cli ri (sh, task) e).1.slice ri.exchange ri.cliInstId)
      (step u uni cli ri (sh, task) e).2 := by
  cases task with
  | panicked => exact h
  | notSpawned =>
    cases e with
    | handle | write => exact h
    | spawn sender =>
      -- nothing was written under the labels, so the slice is the empty one
      obtain ⟨hslice, htask⟩ := @step_congr _ u uni cli ri sh {} .notSpawned (.spawn sender) h
      rw [hslice, htask]
      exact reports_spawn sender
  | running wsUrl sender client pending =>
    obtain ⟨hurl, ⟨es, hrun⟩, hpending⟩ := h
    cases pending with
    | nil =>
      cases e with
      | spawn | write => exact ⟨hurl, ⟨es, hrun⟩, hpending⟩
      | handle e =>
        refine ⟨hurl, ⟨es ++ [e], ?_⟩, ?_⟩
        · rw [hrun, Client.run, Client.run, List.foldl_concat]
        · rw [Client.slice_step u rfl, ← hpending]
          rfl
    | cons up pending =>
      cases e with
      | spawn | handle => exact ⟨hurl, ⟨es, hrun⟩, hpending⟩
      | write =>
        refine ⟨hurl, ⟨es, hrun⟩, ?_⟩
        have hown : (sh.apply (cli.config uni ri wsUrl sender) up).slice ri.exchange ri.cliInstId
            = (sh.slice ri.exchange ri.cliInstId).apply up :=
          Shared.slice_apply_own (cli.config uni ri wsUrl sender) sh up
        rw [← hpending, List.foldl_cons, ← hown]
        rfl

end Task

/-! ## All tasks -/

namespace Process

variable {rfc3339 : String → Option ℤ} {uni : Unicode} {cli : CliArgs}
  {tasks : List ResolvedInstrument}

/-- The invariant rule for one task among others: what holds before the task is spawned, and what
its own steps keep, holds of what it sees in every run. -/
theorem invariant_run {i : Fin tasks.length}
    (hkey : ∀ j, j ≠ i → (instrumentOf j).statusKey ≠ (instrumentOf i).statusKey)
    {J : Slice → Task ((instrumentOf i).venue.client rfc3339) → Prop}
    (hstart : J (({} : Shared).slice (instrumentOf i).exchange (instrumentOf i).cliInstId)
      .notSpawned)
    (hstep : ∀ sh task e, J (sh.slice (instrumentOf i).exchange (instrumentOf i).cliInstId) task →
      let next := Task.step ((instrumentOf i).venue.updates rfc3339) uni cli (instrumentOf i)
        (sh, task) e
      J (next.1.slice (instrumentOf i).exchange (instrumentOf i).cliInstId) next.2)
    (es : List (ProcessEvent rfc3339 tasks)) :
    J ((run uni cli es).shared.slice (instrumentOf i).exchange (instrumentOf i).cliInstId)
      ((run uni cli es).task i) := by
  refine (Trace.always_of_inductive
    (I := fun st : Process rfc3339 tasks =>
      J (st.shared.slice (instrumentOf i).exchange (instrumentOf i).cliInstId) (st.task i))
    (H := fun _ => True) hstart (fun _ _ => trivial) ?_).last
  intro st e h _
  by_cases hi : e.task = i
  · subst hi
    simpa only [step, Function.update_self] using hstep st.shared (st.task e.task) e.event h
  · have hview := @view_step_other _ uni cli _ st e i (Ne.symm hi) (hkey e.task hi)
    obtain ⟨hslice, htask⟩ := Prod.mk.inj hview
    rw [hslice, htask]
    exact h

/-- The invariant of `Task.Reports` for one task of the process. -/
def Reports (uni : Unicode) (cli : CliArgs) (st : Process rfc3339 tasks)
    (i : Fin tasks.length) : Prop :=
  @Task.Reports ((instrumentOf i).venue.client rfc3339) uni cli (instrumentOf i)
    (st.shared.slice (instrumentOf i).exchange (instrumentOf i).cliInstId) (st.task i)

/-- **The process refines its tasks.** In any interleaving, what stands under the labels of a task
whose status key no other task has is what a run of its client alone has written, up to the updates
of the handler that is at work. -/
theorem reports_run {i : Fin tasks.length}
    (hkey : ∀ j, j ≠ i → (instrumentOf j).statusKey ≠ (instrumentOf i).statusKey)
    (es : List (ProcessEvent rfc3339 tasks)) : (run uni cli es).Reports uni cli i :=
  @invariant_run _ uni cli _ i hkey (Task.Reports uni cli (instrumentOf i)) rfl
    (fun _ _ e h => Task.reports_step h e) es

/-- Two instruments of two exchanges. -/
def twoTasks : List ResolvedInstrument :=
  [{ symbol := "BTC-USDT", exchange := "okx", cliInstId := "btcusdt", region := "europe" },
    { symbol := "BTC/USD", exchange := "kraken", cliInstId := "btcusd", region := "europe" }]

def firstTask : Fin twoTasks.length := ⟨0, by decide⟩

def secondTask : Fin twoTasks.length := ⟨1, by decide⟩

/-- The first task comes to its read loop while the second connects. -/
def twoTasksRun (sender : Bool) : List (ProcessEvent (fun _ => none) twoTasks) :=
  [⟨firstTask, .spawn sender⟩, ⟨secondTask, .spawn sender⟩,
    ⟨firstTask, .handle (.connected { now := 1 })⟩,
    ⟨secondTask, .handle (.connected { now := 2 })⟩, ⟨firstTask, .write⟩,
    ⟨firstTask, .handle (.sent { now := 3 })⟩, ⟨secondTask, .write⟩, ⟨firstTask, .write⟩,
    ⟨firstTask, .handle (.sent { now := 4 })⟩]

/-- The client that the first task runs. -/
def firstConfig (sender : Bool) : Config :=
  CliArgs.config .ascii {} (instrumentOf firstTask) "wss://wseea.okx.com:8443/ws/v5/public" sender

/-- A snapshot arrives and is read. -/
def snapshotEvents : List (Event Okx.client) :=
  [.link (.arrive (.text "" (some (Okx.booksMsg "snapshot" [("100", "1")] [("101", "2")])))),
    .link (.poll { now := 5 })]

/-- The client of the first task takes an event. -/
def firstHandles (e : Event Okx.client) : ProcessEvent (fun _ => none) twoTasks :=
  ⟨firstTask, .handle e⟩

theorem reports_run_twoTasks :
    (run .ascii {} (twoTasksRun false)).Reports .ascii {} firstTask :=
  reports_run (by decide +kernel) (twoTasksRun false)

section Running

variable {i : Fin tasks.length}
  (hkey : ∀ j, j ≠ i → (instrumentOf j).statusKey ≠ (instrumentOf i).statusKey)
  (es : List (ProcessEvent rfc3339 tasks)) {wsUrl : String} {sender : Bool}
  {client : Client ((instrumentOf i).venue.client rfc3339)}
include hkey

/-- The endpoints report what the client of the task has, when its handlers are through. -/
theorem slice_of_running
    (htask : (run uni cli es).task i = .running wsUrl sender client []) :
    (instrumentOf i).exchange = (instrumentOf i).venue.name ∧
      (∃ own, client
        = Client.run _ (cli.config uni (instrumentOf i) wsUrl sender)
          (startingWorld (instrumentOf i)) own) ∧
      (run uni cli es).shared.slice (instrumentOf i).exchange (instrumentOf i).cliInstId
        = client.slice (cli.config uni (instrumentOf i) wsUrl sender) := by
  have h := @reports_run _ uni cli _ _ hkey es
  rw [Reports, htask] at h
  obtain ⟨hurl, hrun, hslice⟩ := h
  exact ⟨ResolvedInstrument.exchange_eq_name hurl, hrun, hslice⟩

/-- **What `/status` shows of a task whose key is its own.** In any interleaving, when the handlers
of the task are through, `/status` has an entry for its instrument. It shows the totals of the book
that the client holds while the client reads, and no sizes and no price while it has no connection.
The client is the one of the exchange that the instrument names. -/
theorem status_run (htask : (run uni cli es).task i = .running wsUrl sender client []) :
    (instrumentOf i).exchange = (instrumentOf i).venue.name ∧
      ∃ entry, ((run uni cli es).report i).status = some entry ∧
        (client.phase = .reading →
          entry.Shows (((instrumentOf i).venue.client rfc3339).book client.conn.session)) ∧
        (client.phase.bookless = true → entry.Blank) := by
  obtain ⟨hname, ⟨own, hrun⟩, hslice⟩ := slice_of_running hkey es htask
  refine ⟨hname, ?_⟩
  have hmirrors : client.Mirrors (cli.config uni (instrumentOf i) wsUrl sender) := by
    rw [hrun]
    exact Client.mirrors_run ((instrumentOf i).venue.mirrors rfc3339) rfl showsBlank_startingWorld
      own
  have hsome : (client.world.entry (cli.config uni (instrumentOf i) wsUrl sender)).isSome := by
    rw [hrun]
    refine Client.isSome_status_run ((instrumentOf i).venue.updates rfc3339) rfl ?_ own
    rw [entry_startingWorld]
    rfl
  obtain ⟨entry, hentry⟩ := Option.isSome_iff_exists.mp hsome
  have hreport : ((run uni cli es).report i).status = some entry := by
    rw [← hentry]
    exact (congrArg Slice.status hslice)
  refine ⟨entry, hreport, ?_, ?_⟩
  · exact fun hphase => hmirrors.showsBook hphase entry hentry
  · exact fun hphase => hmirrors.showsBlank hphase entry hentry

end Running

/-- The first task reads, and nothing has arrived yet. -/
theorem status_run_twoTasks :
    ∃ entry, ((run .ascii {} (twoTasksRun false)).report firstTask).status = some entry ∧
      entry.Shows OrderBook.new := by
  obtain ⟨-, entry, hentry, hreading, -⟩ :=
    status_run (i := firstTask) (by decide +kernel) (twoTasksRun false) rfl
  exact ⟨entry, hentry, hreading rfl⟩

end Process

end Cryptomeria
