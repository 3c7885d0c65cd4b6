import Cryptomeria.Client.Report
import Cryptomeria.Main.Instruments

/-!
# The tasks of the process

`main` enters every resolved instrument in the status map as `starting` and spawns a task for it,
which runs a client. A task that has no URL panics at once. All tasks write to the same metrics and
the same status map, one update at a time, in any order.

What the endpoints report for an instrument is what they would report if its task ran alone
(`report_run`) unless two tasks have the same status key; and they have it exactly when two entries
of the command line name the same symbol and exchange, whatever their letter case and separators
(`undisturbed_iff`).
-/

set_option autoImplicit false

namespace Cryptomeria

/-- The table `EXCHANGE_URL`; an unknown region or exchange panics. -/
def websocketUrl (region exchange : String) : Option String :=
  match region, exchange with
  | "global", "okx" => some "wss://ws.okx.com:8443/ws/v5/public"
  | "global", "kraken" => some "wss://ws.kraken.com/v2"
  | "global", "bitstamp" => some "wss://ws.bitstamp.net"
  | "europe", "okx" => some "wss://wseea.okx.com:8443/ws/v5/public"
  | "europe", "kraken" => some "wss://ws.kraken.com/v2"
  | "europe", "bitstamp" => some "wss://ws.bitstamp.net"
  | _, _ => none

/-- The arguments that the tasks depend on. -/
structure CliArgs where
  exchange : String := "okx"
  instrument : String := "BTC-USDT"
  instruments : Option String := none
  maxLevelPct : F64 := .fin (1 / 10)
  maxLevel : Option ℕ := none
  bitstampSnapshotDepth : ℕ := 400
  region : String := "europe"

structure ResolvedInstrument where
  symbol : String
  exchange : String
  cliInstId : String
  region : String
deriving DecidableEq

namespace ResolvedInstrument

variable (ri : ResolvedInstrument)

def statusKey : String := ri.cliInstId ++ "@" ++ ri.exchange

def labels : List String := [ri.exchange, ri.cliInstId]

/-- The client that the task runs. -/
def venue : Venue :=
  match ri.exchange with
  | "kraken" => .kraken
  | "bitstamp" => .bitstamp
  | _ => .okx

end ResolvedInstrument

namespace CliArgs

variable (uni : Unicode) (cli : CliArgs)

/-- The entries of the command line, as symbol and exchange. -/
def entries : List (String × String) :=
  match cli.instruments with
  | some instStr => parseInstrumentsList instStr cli.exchange
  | none => [(cli.instrument, cli.exchange)]

def resolve (entry : String × String) : ResolvedInstrument :=
  let (symbol, exchange, cliInstId) := resolveOneInstrument uni entry.1 entry.2
  { symbol, exchange, cliInstId, region := cli.region }

def resolved : List ResolvedInstrument := cli.entries.map (cli.resolve uni)

/-- `instrument_to_channel` -/
def instrumentToChannel (instrument : String) : String :=
  String.ofList ((instrument.toList.filter uni.isAlphanumeric).flatMap uni.charToLowercase)

/-- The client of a task, as `main` builds it. -/
def config (ri : ResolvedInstrument) (wsUrl : String) (sender : Bool) : Config where
  instrument := ri.symbol
  exchange := ri.exchange
  cliInstrument := ri.cliInstId
  channelInstrument := instrumentToChannel uni ri.symbol
  wsUrl
  maxLevelPct := cli.maxLevelPct
  maxLevel := cli.maxLevel
  sender
  statusHandle := true
  snapshotDepth := if ri.venue = .bitstamp then cli.bitstampSnapshotDepth else 400

end CliArgs

/-! ## One task -/

/-- A task of `main`. The updates of the last event that are not written yet are `pending`. -/
inductive Task (c : ClientSpec) where
  | notSpawned
  | panicked
  | running (wsUrl : String) (sender : Bool) (client : Client c) (pending : List Update)

inductive TaskEvent (c : ClientSpec) where
  /-- `main` comes to the instrument; a sender is connected, or not. -/
  | spawn (sender : Bool)
  | handle (e : Event c)
  /-- The next pending update is written. -/
  | write

def startingStatus : ClientStatus :=
  { active := false, ts := 0, lastPrice := none, bidSize := F64.zero, askSize := F64.zero
    detail := "starting" }

/-- A status map as `main` leaves it, with one instrument. -/
def startingWorld (ri : ResolvedInstrument) : World :=
  { status := (∅ : Std.ExtTreeMap String ClientStatus).insert ri.statusKey startingStatus }

namespace Task

variable {c : ClientSpec} (u : c.Updates) (uni : Unicode) (cli : CliArgs) (ri : ResolvedInstrument)

def step (st : Shared × Task c) (e : TaskEvent c) : Shared × Task c :=
  let (shared, task) := st
  match task, e with
  | .notSpawned, .spawn sender =>
    ({ shared with status := shared.status.insert ri.statusKey startingStatus },
      match websocketUrl ri.region ri.exchange with
      | some wsUrl =>
        .running wsUrl sender
          (Client.start c (cli.config uni ri wsUrl sender) (startingWorld ri)) []
      | none => .panicked)
  | .running wsUrl sender client [], .handle e =>
    let cfg := cli.config uni ri wsUrl sender
    (shared, .running wsUrl sender (client.step cfg e) (client.updates u cfg e))
  | .running wsUrl sender client (up :: pending), .write =>
    (shared.apply (cli.config uni ri wsUrl sender) up, .running wsUrl sender client pending)
  | task, _ => (shared, task)

variable {u uni cli ri}

theorem slice_insert_own (sh : Shared) (st : ClientStatus) :
    ({ sh with status := sh.status.insert ri.statusKey st }.slice ri.exchange ri.cliInstId)
      = { sh.slice ri.exchange ri.cliInstId with status := some st } := by
  simp [Shared.slice, ResolvedInstrument.statusKey]

/-- What a task does to its slice and to itself depends on these alone. -/
theorem step_congr {sh sh' : Shared} (task : Task c) (e : TaskEvent c)
    (h : sh.slice ri.exchange ri.cliInstId = sh'.slice ri.exchange ri.cliInstId) :
    (step u uni cli ri (sh, task) e).1.slice ri.exchange ri.cliInstId
        = (step u uni cli ri (sh', task) e).1.slice ri.exchange ri.cliInstId
      ∧ (step u uni cli ri (sh, task) e).2 = (step u uni cli ri (sh', task) e).2 := by
  cases task with
  | notSpawned =>
    cases e with
    | spawn sender =>
      refine ⟨?_, rfl⟩
      simp only [step, slice_insert_own, h]
    | handle | write => exact ⟨h, rfl⟩
  | panicked => exact ⟨h, rfl⟩
  | running wsUrl sender client pending =>
    cases pending with
    | nil => cases e <;> exact ⟨h, rfl⟩
    | cons up pending =>
      cases e with
      | spawn | handle => exact ⟨h, rfl⟩
      | write =>
        refine ⟨?_, rfl⟩
        have hown := fun sh => Shared.slice_apply_own (cli.config uni ri wsUrl sender) sh up
        exact (hown sh).trans ((congrArg (Slice.apply · up) h).trans (hown sh').symm)

/-- A task leaves the slices under other status keys alone. -/
theorem slice_step_other (st : Shared × Task c) (e : TaskEvent c) {ri' : ResolvedInstrument}
    (hkey : ri.statusKey ≠ ri'.statusKey) :
    (step u uni cli ri st e).1.slice ri'.exchange ri'.cliInstId
      = st.1.slice ri'.exchange ri'.cliInstId := by
  have hother : ∀ wsUrl sender (sh : Shared) (up : Update),
      (sh.apply (cli.config uni ri wsUrl sender) up).slice ri'.exchange ri'.cliInstId
        = sh.slice ri'.exchange ri'.cliInstId :=
    fun wsUrl sender =>
      @Shared.slice_apply_other (cli.config uni ri wsUrl sender) ri'.exchange ri'.cliInstId hkey
  obtain ⟨sh, task⟩ := st
  cases task with
  | notSpawned =>
    cases e with
    | spawn sender => exact hother "" sender sh (.status startingStatus)
    | handle | write => rfl
  | panicked => rfl
  | running wsUrl sender client pending =>
    cases pending with
    | nil => cases e <;> rfl
    | cons up pending =>
      cases e with
      | spawn | handle => rfl
      | write => exact hother wsUrl sender sh up

/-- The status map and the gauges that the client would have alone are the shared ones, after
the updates that are pending. -/
def Synced (uni : Unicode) (cli : CliArgs) (ri : ResolvedInstrument)
    (st : Shared × Task c) : Prop :=
  match st.2 with
  | .notSpawned => st.1 = {}
  | .panicked => True
  | .running wsUrl sender client pending =>
    pending.foldl (Shared.apply (cli.config uni ri wsUrl sender)) st.1 = client.world.shared

theorem synced_step {st : Shared × Task c} (h : Synced uni cli ri st) (e : TaskEvent c) :
    Synced uni cli ri (step u uni cli ri st e) := by
  obtain ⟨sh, task⟩ := st
  cases task with
  | panicked => trivial
  | notSpawned =>
    cases e with
    | handle | write => exact h
    | spawn sender =>
      obtain rfl : sh = {} := h
      simp only [step]
      cases websocketUrl ri.region ri.exchange with
      | none => trivial
      | some wsUrl => rfl
  | running wsUrl sender client pending =>
    cases pending with
    | nil =>
      cases e with
      | spawn | write => exact h
      | handle e =>
        have hshared : sh = client.world.shared := h
        rw [hshared]
        exact (Client.shared_step u rfl client e).symm
    | cons up pending => cases e <;> exact h

end Task

/-! ## All tasks -/

section Process

variable (rfc3339 : String → Option ℤ) (uni : Unicode) (cli : CliArgs)
  (tasks : List ResolvedInstrument)

structure Process where
  shared : Shared
  task : (i : Fin tasks.length) → Task (tasks[i].venue.client rfc3339)

/-- An event of one task. -/
structure ProcessEvent where
  task : Fin tasks.length
  event : TaskEvent (tasks[task].venue.client rfc3339)

variable {rfc3339 tasks}

/-- The instrument of a task. -/
abbrev instrumentOf (i : Fin tasks.length) : ResolvedInstrument :=
  tasks[i]

/-- The event is one of task `i`. -/
def ProcessEvent.isOf (i : Fin tasks.length) (e : ProcessEvent rfc3339 tasks) : Bool :=
  decide (e.task = i)

namespace Process

def step (st : Process rfc3339 tasks) (e : ProcessEvent rfc3339 tasks) :
    Process rfc3339 tasks :=
  let next := Task.step (tasks[e.task].venue.updates rfc3339) uni cli tasks[e.task]
    (st.shared, st.task e.task) e.event
  { shared := next.1, task := Function.update st.task e.task next.2 }

/-- Events of the tasks, in any order. -/
def run (es : List (ProcessEvent rfc3339 tasks)) : Process rfc3339 tasks :=
  es.foldl (step uni cli) { shared := {}, task := fun _ => .notSpawned }

/-- What the endpoints report for the instrument of a task. -/
def report (st : Process rfc3339 tasks) (i : Fin tasks.length) : Report :=
  st.shared.report tasks[i].exchange tasks[i].cliInstId

/-- What a task sees of the process. -/
def view (i : Fin tasks.length) (st : Process rfc3339 tasks) :
    Slice × Task (tasks[i].venue.client rfc3339) :=
  (st.shared.slice tasks[i].exchange tasks[i].cliInstId, st.task i)

variable {uni cli}

theorem view_step_own {st st' : Process rfc3339 tasks} (e : ProcessEvent rfc3339 tasks)
    (h : view e.task st = view e.task st') :
    view e.task (step uni cli st e) = view e.task (step uni cli st' e) := by
  obtain ⟨hslice, htask⟩ := Prod.mk.inj h
  have hstep := @Task.step_congr _ (tasks[e.task].venue.updates rfc3339) uni cli _ _ _
    (st'.task e.task) e.event hslice
  simp only [view, step, Function.update_self, htask]
  exact Prod.ext hstep.1 hstep.2

theorem view_step_other (st : Process rfc3339 tasks) (e : ProcessEvent rfc3339 tasks)
    {i : Fin tasks.length} (hi : i ≠ e.task) (hkey : tasks[e.task].statusKey ≠ tasks[i].statusKey) :
    view i (step uni cli st e) = view i st := by
  have hslice := @Task.slice_step_other _ (tasks[e.task].venue.updates rfc3339) uni cli _
    (st.shared, st.task e.task) e.event _ hkey
  simp only [view, step, Function.update_of_ne hi]
  exact Prod.ext hslice rfl

/-- A task whose status key no other task has sees of a run what it would see alone. -/
theorem view_run {i : Fin tasks.length}
    (hkey : ∀ j, j ≠ i → tasks[j].statusKey ≠ tasks[i].statusKey)
    (es : List (ProcessEvent rfc3339 tasks)) :
    view i (run uni cli es) = view i (run uni cli (es.filter (ProcessEvent.isOf i))) := by
  refine Trace.view_foldl_filter ?_ ?_ rfl es
  · intro st e he
    have hi : e.task ≠ i := of_decide_eq_false he
    exact view_step_other st e hi.symm (hkey e.task hi)
  · intro st st' e he h
    obtain rfl : e.task = i := of_decide_eq_true he
    exact view_step_own e h

theorem report_run {i : Fin tasks.length}
    (hkey : ∀ j, j ≠ i → tasks[j].statusKey ≠ tasks[i].statusKey)
    (es : List (ProcessEvent rfc3339 tasks)) :
    (run uni cli es).report i = (run uni cli (es.filter (ProcessEvent.isOf i))).report i :=
  Shared.report_congr (Prod.mk.inj (view_run hkey es)).1

/-- A task that runs alone leaves in the shared maps what its client has in its world. -/
theorem synced_run {i : Fin tasks.length} {es : List (ProcessEvent rfc3339 tasks)}
    (hes : ∀ e ∈ es, e.task = i) :
    Task.Synced uni cli tasks[i] ((run uni cli es).shared, (run uni cli es).task i) := by
  induction es using List.reverseRecOn with
  | nil => rfl
  | append_singleton es e ih =>
    obtain rfl : e.task = i := hes e (by simp)
    have hsynced := Task.synced_step (u := tasks[e.task].venue.updates rfc3339)
      (ih fun e' he' => hes e' (List.mem_append_left _ he')) e.event
    unfold run at hsynced ⊢
    rw [List.foldl_concat]
    simpa only [step, Function.update_self] using hsynced

/-- Where nothing is pending, the endpoints report what the client has in its world. -/
theorem report_eq_world {i : Fin tasks.length}
    (hkey : ∀ j, j ≠ i → tasks[j].statusKey ≠ tasks[i].statusKey)
    {es : List (ProcessEvent rfc3339 tasks)} {wsUrl : String} {sender : Bool}
    {client : Client (tasks[i].venue.client rfc3339)}
    (htask : (run uni cli es).task i = .running wsUrl sender client []) :
    (run uni cli es).report i
      = client.world.shared.report tasks[i].exchange tasks[i].cliInstId := by
  obtain ⟨hslice, htask'⟩ := Prod.mk.inj (@view_run _ uni cli _ _ hkey es)
  have hown : ∀ e ∈ es.filter (ProcessEvent.isOf i), e.task = i := by
    intro e he
    exact of_decide_eq_true (List.mem_filter.mp he).2
  have hsynced := @synced_run _ uni cli _ _ _ hown
  rw [← htask', htask] at hsynced
  exact Shared.report_congr (hslice.trans (congrArg _ hsynced))

end Process

/-- The tasks do not disturb each other: whatever the order of their events, the endpoints report
for each instrument what they would report if its task ran alone. No two tasks share a key of the
status map or a pair of labels. -/
structure Undisturbed (rfc3339 : String → Option ℤ) (uni : Unicode) (cli : CliArgs)
    (tasks : List ResolvedInstrument) : Prop where
  report_alone : ∀ (es : List (ProcessEvent rfc3339 tasks)) (i : Fin tasks.length),
    (Process.run uni cli es).report i
      = (Process.run uni cli (es.filter (ProcessEvent.isOf i))).report i
  statusKey_ne : ∀ i j : Fin tasks.length, i ≠ j → tasks[i].statusKey ≠ tasks[j].statusKey
  labels_ne : ∀ i j : Fin tasks.length, i ≠ j → tasks[i].labels ≠ tasks[j].labels

/-- An entry up to letter case and separators: a second `@` names the exchange. -/
def spelling (uni : Unicode) (entry : String × String) : String :=
  let (symbol, exchangeOverride) := parseExchangeOverride entry.1
  deleteSeparators (uni.toLowercase symbol) ++ "@"
    ++ uni.toLowercase (exchangeOverride.getD entry.2)

/-- Tasks with the same labels have the same status key. -/
theorem ResolvedInstrument.statusKey_eq_of_labels_eq {ri ri' : ResolvedInstrument}
    (h : ri.labels = ri'.labels) : ri.statusKey = ri'.statusKey := by
  simp only [labels, List.cons.injEq, and_true] at h
  rw [statusKey, statusKey, h.1, h.2]

theorem nodup_map_statusKey_iff :
    (tasks.map ResolvedInstrument.statusKey).Nodup
      ↔ ∀ i j : Fin tasks.length, i ≠ j → tasks[i].statusKey ≠ tasks[j].statusKey := by
  rw [List.Nodup, List.pairwise_map, List.pairwise_iff_getElem]
  constructor
  · intro h i j hij
    rcases lt_or_gt_of_ne hij with hlt | hgt
    · exact h i j i.isLt j.isLt hlt
    · exact (h j i j.isLt i.isLt hgt).symm
  · intro h i j hi hj hij
    exact h ⟨i, hi⟩ ⟨j, hj⟩ (by simpa using hij.ne)

theorem map_statusKey_resolved (uni : Unicode) (cli : CliArgs) :
    (cli.resolved uni).map ResolvedInstrument.statusKey = cli.entries.map (spelling uni) := by
  rw [CliArgs.resolved, List.map_map]
  rfl

theorem undisturbed_iff (rfc3339 : String → Option ℤ) (uni : Unicode) (cli : CliArgs) :
    Undisturbed rfc3339 uni cli (cli.resolved uni) ↔ (cli.entries.map (spelling uni)).Nodup := by
  rw [← map_statusKey_resolved, nodup_map_statusKey_iff]
  constructor
  · exact fun h => h.statusKey_ne
  · intro hkeys
    refine ⟨?_, hkeys, ?_⟩
    · intro es i
      exact Process.report_run (fun j hj => hkeys j i hj) es
    · intro i j hij hlabels
      exact hkeys i j hij (ResolvedInstrument.statusKey_eq_of_labels_eq hlabels)

/-- The same instrument twice, with two separators. -/
def repeatedInstrument : CliArgs := { instruments := some "BTC-USDT,BTC/USDT" }

theorem second_task_disturbs_first :
    ¬ Undisturbed (fun _ => none) .ascii repeatedInstrument
      (repeatedInstrument.resolved .ascii) := by
  intro h
  have hone := h.report_alone
    [⟨⟨0, by decide +kernel⟩, .spawn false⟩, ⟨⟨1, by decide +kernel⟩, .spawn false⟩,
      ⟨⟨1, by decide +kernel⟩, .handle (.connected { now := 1 })⟩,
      ⟨⟨1, by decide +kernel⟩, .write⟩]
    ⟨0, by decide +kernel⟩
  -- the first task has not connected, and is reported as active
  have hactive := congrArg (fun r => r.status.map ClientStatus.active) hone
  revert hactive
  decide +kernel

end Process

end Cryptomeria
