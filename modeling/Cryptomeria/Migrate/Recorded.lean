import Cryptomeria.Lib.Trace
import Cryptomeria.Migrate.Migrator

/-!
# A recorded migration is not run again

Successive calls of `run_migrations` on one database. A call skips what is in its list of applied
migrations, and the list has every row of `schema_version`, unless the request for the table fails
inside `list_applied`: then the list is empty, and the call goes on as on a new database
(`recorded_not_rerun`).
-/

set_option autoImplicit false

namespace Cryptomeria
namespace Migrate

/-- The surroundings of a call of `run_migrations`. -/
structure Call where
  answers : List Answer
  clock : ℕ → String := fun _ => ""

section

variable {D : Type} (execSql : String → D → Except String D) (ms : List Migration)

def call (db : Database D) (c : Call) : Except Stop Unit × Link D :=
  runMigrations execSql ms { db, answers := c.answers, clock := c.clock }

/-- The database after a call. -/
def callStep (db : Database D) (c : Call) : Database D := (call execSql ms db c).2.db

/-- The call does not execute a migration whose version has a row. -/
def KeepsRecorded (db : Database D) (c : Call) : Prop :=
  ∀ m ∈ ms, db.Recorded m.version → .migrate m ∉ (call execSql ms db c).2.sent

end

/-- The first request of the call is answered, and the second one, the request for the table inside
`list_applied`, has an error. -/
def Call.listFails (c : Call) : Bool :=
  match c.answers with
  | .answered :: .answered :: _ => false
  | .answered :: _ :: _ => true
  | _ => false

variable {D : Type} {execSql : String → D → Except String D} {ms : List Migration}
  {db db' : Database D} {c : Call}

theorem Call.listFails_of {answer : Answer} {answers : List Answer} (hne : answer ≠ .answered)
    (h : c.answers = .answered :: answer :: answers) : c.listFails = true := by
  rw [listFails, h]
  cases answer with
  | answered => exact absurd rfl hne
  | lost _ | unreached _ => rfl

/-- The list can be made, or it has nothing of these migrations to miss. -/
def ListsRecorded (ms : List Migration) (db : Database D) (c : Call) : Prop :=
  c.listFails = true → ∀ m ∈ ms, ¬ db.Recorded m.version

instance : Decidable (ListsRecorded ms db c) :=
  inferInstanceAs (Decidable (c.listFails = true → ∀ m ∈ ms, ¬ db.Recorded m.version))

/-! ## Counting rows -/

theorem Database.count_eq_zero {version : Int32} :
    db.count version = 0 ↔ ¬ db.Recorded version := by
  rw [count, List.length_eq_zero_iff, List.filter_eq_nil_iff, Recorded]
  simp

theorem Database.count_recordRow (db : Database D) (m : Migration) (appliedOn : String)
    (version : Int32) :
    (db.recordRow (m.row appliedOn)).count version
      = db.count version + if m.version = version then 1 else 0 := by
  have hrows : (db.recordRow (m.row appliedOn)).rows = db.rows ++ [m.row appliedOn] := rfl
  rw [count, count, hrows, List.filter_append, List.length_append]
  by_cases h : m.version = version
  · simp [h, Migration.row]
  · simp [h, Migration.row]

/-- Pending migrations without a row, each version once, get one row each at most. -/
theorem Ran.count_le {ps : List Migration} {cut : Option Migration}
    (h : Ran execSql ps db cut db') (hversions : (ps.map Migration.version).Nodup)
    (hnew : ∀ m ∈ ps, ¬ db.Recorded m.version) (version : Int32) :
    db'.count version ≤ max 1 (db.count version) := by
  induction h with
  | stop ps db => exact le_max_right _ _
  | cut _ => exact le_max_right _ _
  | @record m ps db db' tables appliedOn cut _ _ ih =>
    rw [List.map_cons, List.nodup_cons] at hversions
    obtain ⟨hm, hrest⟩ := List.forall_mem_cons.mp hnew
    have hcount := Database.count_recordRow { db with tables } m appliedOn
    have hsame : ∀ v, Database.count { db with tables } v = db.count v := fun _ => rfl
    have hzero := Database.count_eq_zero.mpr hm
    have hle := ih hversions.2 (by
      intro m' hm'
      have hne : m.version ≠ m'.version := by
        intro heq
        exact hversions.1 (heq ▸ List.mem_map_of_mem hm')
      rw [← Database.count_eq_zero, hcount, hsame, if_neg hne, Nat.add_zero]
      exact Database.count_eq_zero.mpr (hrest m' hm'))
    rw [hcount, hsame] at hle
    split at hle
    · rename_i heq
      subst heq
      omega
    · exact hle

/-! ## One call -/

variable (execSql) in
/-- What a call does to the migrations with a row: none of them is executed, and no version gets a
second row. -/
theorem call_of_listsRecorded (hversions : (ms.map Migration.version).Nodup)
    (hC : ListsRecorded ms db c) :
    KeepsRecorded execSql ms db c ∧
      ∀ version, (callStep execSql ms db c).count version ≤ max 1 (db.count version) := by
  -- the loop runs over migrations without a row, whichever list it has
  have hloop : ∀ (applied : AppliedMap) (link : Link D),
      Asked { db, answers := c.answers, clock := c.clock } link →
      link.db.schemaVersion.isSome = true →
      (∀ m ∈ pending applied ms, ¬ db.Recorded m.version) →
      (∀ m ∈ ms, db.Recorded m.version → .migrate m ∉ (applyAll execSql applied ms link).2.sent) ∧
        ∀ version, (applyAll execSql applied ms link).2.db.count version
          ≤ max 1 (db.count version) := by
    intro applied link hasked htable hpending
    constructor
    · intro m _ hrecorded hsent
      rcases mem_sent_applyAll hsent with hbefore | hmem
      · exact absurd (hasked.sent m hbefore) (by simp)
      · exact hpending m hmem hrecorded
    · intro version
      obtain ⟨cut, hran, -⟩ := applyAll_ran execSql applied ms htable
      have hsame : ∀ v, link.db.count v = db.count v := by
        intro v
        rw [Database.count, hasked.rows]
        rfl
      rw [← hsame]
      refine hran.count_le ?_ ?_ version
      · exact hversions.sublist (List.filter_sublist.map _)
      · intro m hm
        rw [← Database.count_eq_zero, hsame]
        exact Database.count_eq_zero.mpr (hpending m hm)
  have hcalled := runMigrations_called execSql ms
    { db, answers := c.answers, clock := c.clock }
  unfold KeepsRecorded callStep call
  generalize runMigrations execSql ms _ = out at hcalled
  cases hcalled with
  | stopped hasked _ =>
    constructor
    · intro m _ _ hsent
      exact absurd (hasked.sent m hsent) (by simp)
    · intro version
      rw [Database.count, hasked.rows]
      exact le_max_right _ _
  | listed hasked htable _ =>
    apply hloop _ _ hasked htable
    intro m hm hrecorded
    obtain ⟨row, hrow, hversion⟩ := hrecorded
    have hlisted : (listed db.rows).contains m.version = true :=
      (contains_listed _ _).mpr ⟨row, hrow, by rw [hversion]; rfl⟩
    have hunlisted := (List.mem_filter.mp hm).2
    rw [hlisted] at hunlisted
    exact absurd hunlisted (by simp)
  | @unlisted answer link hasked htable hne hanswers =>
    apply hloop _ _ hasked htable
    intro m hm
    exact hC (Call.listFails_of hne hanswers) m (List.mem_filter.mp hm).1

/-! ## Runs -/

/-- **When a recorded migration is not run again.** For every list of migrations with distinct
versions, every database and every run of calls in each of which the list of applied migrations can
be made, or misses none of the migrations: no call executes a migration whose version has a row at
its start, and no version gets a second row. -/
theorem recorded_not_rerun (execSql : String → D → Except String D) (ms : List Migration)
    (hversions : (ms.map Migration.version).Nodup) (db : Database D) (cs : List Call)
    (hC : Trace.EachStep (callStep execSql ms) (ListsRecorded ms) db cs) :
    Trace.EachStep (callStep execSql ms) (KeepsRecorded execSql ms) db cs ∧
      Trace.Always (callStep execSql ms)
        (fun db' => ∀ version, db'.count version ≤ max 1 (db.count version)) db cs := by
  constructor
  · intro pre c hpre
    exact (call_of_listsRecorded execSql hversions (hC pre c hpre)).1
  · refine Trace.always_of_eachStep (H := fun _ => True) ?_ (fun _ _ => trivial) hC ?_
    · intro version
      exact le_max_right _ _
    · intro db' c hI _ hlists version
      have hstep := (call_of_listsRecorded execSql hversions hlists).2 version
      have hbefore := hI version
      omega

/-- A database without other tables; every statement succeeds there. -/
def acceptSql (_ : String) (tables : Unit) : Except String Unit := .ok tables

def oneMigration : List Migration := [{ version := 1, name := "create_trades", sql := "CREATE .." }]

/-- A call whose requests are all answered. -/
def answeredCall : Call := { answers := List.replicate 5 .answered }

/-- The request for the table times out inside `list_applied`; the others are answered. -/
def unlistedCall : Call := { answers := [.answered, .unreached "timeout", .answered, .answered] }

theorem recorded_not_rerun_twice :
    Trace.EachStep (callStep acceptSql oneMigration) (KeepsRecorded acceptSql oneMigration)
      { tables := () } [unlistedCall, answeredCall, answeredCall] := by
  refine (recorded_not_rerun acceptSql oneMigration (by decide) { tables := () }
    [unlistedCall, answeredCall, answeredCall] ?_).1
  simp only [Trace.eachStep_cons, Trace.eachStep_nil, and_true]
  decide

/-- The list comes out empty, and the migration is executed and recorded a second time. -/
theorem recorded_rerun :
    ¬ ∀ (ms : List Migration), (ms.map Migration.version).Nodup →
      ∀ (db : Database Unit) (cs : List Call),
        Trace.EachStep (callStep acceptSql ms) (KeepsRecorded acceptSql ms) db cs ∧
          Trace.Always (callStep acceptSql ms)
            (fun db' => ∀ version, db'.count version ≤ max 1 (db.count version)) db cs := by
  intro h
  have hrows := (h oneMigration (by decide) { tables := () } [answeredCall, unlistedCall]).2.last 1
  exact absurd hrows (by decide)

end Migrate
end Cryptomeria
