import Cryptomeria.Json
import Mathlib

/-!
# The migrator

`migrate.rs`. A call of `run_migrations` is a sequence of requests, and each of them can fail before
or after the database has executed it. What the requests get is a list of answers that comes with
the call; when the list is at its end, the process is killed. Executing a migration and recording it
are two requests.

The database is the table `schema_version`, which the migrator writes, and everything else, which
the statements of the migrations change in a way of their own (`execSql`).
-/

set_option autoImplicit false

namespace Cryptomeria
namespace Migrate

structure Migration where
  version : Int32
  name : String
  sql : String
deriving DecidableEq

structure AppliedMigration where
  version : Int32
  name : String
  appliedOn : String

/-! ## The database -/

/-- A row of `schema_version`; any column can be null. -/
structure VersionRow where
  version : Option Int32
  name : Option String
  appliedOn : Option String

structure Database (D : Type) where
  /-- The rows of `schema_version`, oldest first; `none` when there is no such table. -/
  schemaVersion : Option (List VersionRow) := none
  tables : D

namespace Database

variable {D : Type}

def rows (db : Database D) : List VersionRow := db.schemaVersion.getD []

/-- A row of `schema_version` has the version. -/
def Recorded (db : Database D) (version : Int32) : Prop :=
  ∃ row ∈ db.rows, row.version = some version

/-- How many rows have the version. -/
def count (db : Database D) (version : Int32) : ℕ :=
  (db.rows.filter fun row => row.version = some version).length

instance (db : Database D) (version : Int32) : Decidable (db.Recorded version) :=
  inferInstanceAs (Decidable (∃ row ∈ db.rows, row.version = some version))

end Database

/-- What the migrator sends. -/
inductive Statement where
  /-- `SCHEMA_VERSION_DDL`, a `CREATE TABLE IF NOT EXISTS` -/
  | createSchemaVersion
  /-- `SELECT version, name, applied_on FROM schema_version ORDER BY version ASC` -/
  | selectApplied
  /-- The `sql` of a migration. -/
  | migrate (migration : Migration)
  /-- `INSERT INTO schema_version (version, name, applied_on) VALUES (..)`; the quotes in a name are
  doubled, so the row has the name as it is. -/
  | record (version : Int32) (name appliedOn : String)
deriving DecidableEq

section Exec

variable {D : Type} (execSql : String → D → Except String D)

def Database.exec (stmt : Statement) (db : Database D) : Except String (Database D) :=
  match stmt with
  | .createSchemaVersion => .ok { db with schemaVersion := some db.rows }
  | .selectApplied =>
    if db.schemaVersion.isSome then .ok db else .error "table does not exist [table=schema_version]"
  | .migrate migration =>
    match execSql migration.sql db.tables with
    | .ok tables => .ok { db with tables }
    | .error e => .error e
  | .record version name appliedOn =>
    match db.schemaVersion with
    | some rows =>
      .ok { db with
        schemaVersion :=
          some (rows ++
            [{ version := some version, name := some name, appliedOn := some appliedOn }]) }
    | none => .error "table does not exist [table=schema_version]"

end Exec

/-- The rows of a `SELECT` in JSON, ordered by version, nulls first. -/
def VersionRow.value (row : VersionRow) : Value :=
  .array [(row.version.map fun v => Value.number (.int v.toInt)).getD .null,
    (row.name.map Value.string).getD .null, (row.appliedOn.map Value.string).getD .null]

def VersionRow.sortKey (row : VersionRow) : ℤ := (row.version.map Int32.toInt).getD (-2 ^ 31)

def dataset (rows : List VersionRow) : List Value :=
  (rows.insertionSort fun a b => a.sortKey ≤ b.sortKey).map VersionRow.value

/-! ## Requests -/

/-- What a request gets. -/
inductive Answer where
  /-- The response is read. -/
  | answered
  /-- The statement reaches the database, and an error is reported nevertheless: the connection
  breaks, or the response cannot be read. -/
  | lost (e : String)
  /-- The statement does not reach the database. -/
  | unreached (e : String)
deriving DecidableEq

/-- The statement reaches the database. -/
def Answer.reaches : Answer → Bool
  | answered | lost _ => true
  | unreached _ => false

/-- Why a call stops early. -/
inductive Stop where
  | err (e : String)
  | killed
deriving DecidableEq

/-- `map_err` -/
def Stop.mapErr (f : String → String) : Stop → Stop
  | err e => err (f e)
  | killed => killed

structure Link (D : Type) where
  db : Database D
  /-- What the coming requests get; after the last one the process is killed. -/
  answers : List Answer
  /-- The clock, in the format of `applied_on`, after so many requests. -/
  clock : ℕ → String
  /-- History: the statements sent in this call, oldest first. -/
  sent : List Statement := []
  /-- The lines logged in this call. -/
  log : List String := []

/-- `logging::info`, `logging::error` -/
def Link.note {D : Type} (line : String) (link : Link D) : Link D :=
  { link with log := link.log ++ [line] }

section Migrator

variable {D : Type} (execSql : String → D → Except String D)

def executeSql (stmt : Statement) (link : Link D) : Except Stop Unit × Link D :=
  match link.answers with
  | [] => (.error .killed, link)
  | answer :: answers =>
    let link := { link with answers, sent := link.sent ++ [stmt] }
    match answer with
    | .unreached e => (.error (.err e), link)
    | .lost e =>
      match link.db.exec execSql stmt with
      | .ok db => (.error (.err e), { link with db })
      | .error _ => (.error (.err e), link)
    | .answered =>
      match link.db.exec execSql stmt with
      | .ok db => (.ok (), { link with db })
      | .error e => (.error (.err ("QuestDB SQL error: " ++ e)), link)

/-- `query_json`, with the only query there is. -/
def queryJson (link : Link D) : Except Stop (List Value) × Link D :=
  match executeSql execSql .selectApplied link with
  | (.error stop, link) => (.error stop, link)
  | (.ok (), link) => (.ok (dataset link.db.rows), link)

/-- A row with fewer than three columns is skipped; a version that is no integer is 0. -/
def AppliedMigration.ofValue (row : Value) : Option AppliedMigration :=
  match row.asArray.getD [] with
  | version :: name :: appliedOn :: _ =>
    some { version := Int32.ofInt (version.readI64.getD 0)
           name := name.asStr.getD ""
           appliedOn := appliedOn.asStr.getD "" }
  | _ => none

/-- When the table cannot be created, nothing has been applied. -/
def listApplied (link : Link D) : Except Stop (List AppliedMigration) × Link D :=
  match executeSql execSql .createSchemaVersion link with
  | (.error .killed, link) => (.error .killed, link)
  | (.error (.err _), link) => (.ok [], link)
  | (.ok (), link) =>
    match queryJson execSql link with
    | (.error stop, link) => (.error stop, link)
    | (.ok rows, link) => (.ok (rows.filterMap AppliedMigration.ofValue), link)

/-- `applied_map` -/
abbrev AppliedMap := Std.ExtTreeMap Int32 AppliedMigration compare

def appliedMap (applied : List AppliedMigration) : AppliedMap :=
  Std.ExtTreeMap.ofList (applied.map fun m => (m.version, m)) compare

def Migration.label (m : Migration) : String := "V" ++ toString m.version ++ "__" ++ m.name

/-- Records a migration that has been executed. -/
def recordOne (m : Migration) (link : Link D) : Except Stop Unit × Link D :=
  match executeSql execSql (.record m.version m.name (link.clock link.sent.length)) link with
  | (.error stop, link) =>
    (.error (stop.mapErr fun e => "Failed to record " ++ m.label ++ ": " ++ e), link)
  | (.ok (), link) => (.ok (), link.note (m.label ++ " applied"))

/-- Executes a migration and records it. -/
def applyOne (m : Migration) (link : Link D) : Except Stop Unit × Link D :=
  match executeSql execSql (.migrate m) (link.note ("Applying " ++ m.label ++ "...")) with
  | (.error stop, link) =>
    (.error (stop.mapErr fun e => "Migration " ++ m.label ++ " failed: " ++ e), link)
  | (.ok (), link) => recordOne execSql m link

/-- The loop over the migrations. -/
def applyAll (applied : AppliedMap) : List Migration → Link D → Except Stop Unit × Link D
  | [], link => (.ok (), link)
  | m :: ms, link =>
    match applied[m.version]? with
    | some existing =>
      if existing.name ≠ m.name then
        applyAll applied ms (link.note ("Divergent migration V" ++ toString m.version
          ++ ": embedded name '" ++ m.name ++ "' != applied name '" ++ existing.name ++ "'"))
      else applyAll applied ms link
    | none =>
      match applyOne execSql m link with
      | (.error stop, link) => (.error stop, link)
      | (.ok (), link) => applyAll applied ms link

def runMigrations (migrations : List Migration) (link : Link D) : Except Stop Unit × Link D :=
  -- `ensure_schema_version_table`
  match executeSql execSql .createSchemaVersion link with
  | (.error stop, link) => (.error stop, link)
  | (.ok (), link) =>
    match listApplied execSql link with
    | (.error stop, link) => (.error stop, link)
    | (.ok applied, link) => applyAll execSql (appliedMap applied) migrations link

end Migrator

/-! ## What a request does -/

section Effects

variable {D : Type} {execSql : String → D → Except String D}

/-- A request is not made, or not executed, or executed with an error reported, or answered. -/
inductive Executed (execSql : String → D → Except String D) (stmt : Statement) (link : Link D) :
    Except Stop Unit × Link D → Prop
  | killed (h : link.answers = []) : Executed execSql stmt link (.error .killed, link)
  | failed {answer : Answer} {answers : List Answer} {e : String}
      (h : link.answers = answer :: answers)
      (hno : ∀ db, link.db.exec execSql stmt = .ok db → answer.reaches = false) :
      Executed execSql stmt link
        (.error (.err e), { link with answers, sent := link.sent ++ [stmt] })
  | lost {answers : List Answer} {e : String} {db : Database D}
      (h : link.answers = .lost e :: answers) (hexec : link.db.exec execSql stmt = .ok db) :
      Executed execSql stmt link
        (.error (.err e), { link with db, answers, sent := link.sent ++ [stmt] })
  | answered {answers : List Answer} {db : Database D}
      (h : link.answers = .answered :: answers) (hexec : link.db.exec execSql stmt = .ok db) :
      Executed execSql stmt link (.ok (), { link with db, answers, sent := link.sent ++ [stmt] })

theorem executeSql_executed (execSql : String → D → Except String D) (stmt : Statement)
    (link : Link D) : Executed execSql stmt link (executeSql execSql stmt link) := by
  unfold executeSql
  cases hanswers : link.answers with
  | nil => exact .killed hanswers
  | cons answer answers =>
    cases hexec : link.db.exec execSql stmt with
    | ok db =>
      cases answer with
      | unreached e => exact .failed hanswers fun _ _ => rfl
      | lost e =>
        simp only [hexec]
        exact .lost hanswers hexec
      | answered =>
        simp only [hexec]
        exact .answered hanswers hexec
    | error e =>
      have hno : ∀ db, link.db.exec execSql stmt = .ok db → answer.reaches = false := by
        intro db hdb
        rw [hexec] at hdb
        cases hdb
      cases answer with
      | unreached e => exact .failed hanswers hno
      | lost e =>
        simp only [hexec]
        exact .failed hanswers hno
      | answered =>
        simp only [hexec]
        exact .failed hanswers hno

/-- The row that records a migration. -/
def Migration.row (m : Migration) (appliedOn : String) : VersionRow :=
  { version := some m.version, name := some m.name, appliedOn := some appliedOn }

theorem exec_migrate {m : Migration} {db db' : Database D}
    (h : db.exec execSql (.migrate m) = .ok db') :
    ∃ tables, execSql m.sql db.tables = .ok tables ∧ db' = { db with tables } := by
  unfold Database.exec at h
  cases htables : execSql m.sql db.tables with
  | ok tables =>
    simp only [htables, Except.ok.injEq] at h
    exact ⟨tables, rfl, h.symm⟩
  | error e => simp [htables] at h

def Database.recordRow (db : Database D) (row : VersionRow) : Database D :=
  { db with schemaVersion := some (db.rows ++ [row]) }

variable (execSql) in
theorem exec_record (m : Migration) (appliedOn : String) {db : Database D}
    (h : db.schemaVersion.isSome = true) :
    db.exec execSql (.record m.version m.name appliedOn)
      = .ok (db.recordRow (m.row appliedOn)) := by
  obtain ⟨rows, hrows⟩ := Option.isSome_iff_exists.mp h
  simp only [Database.exec, Database.recordRow, Database.rows, hrows]
  rfl

theorem mem_sent_executeSql {stmt s : Statement} (link : Link D)
    (h : s ∈ (executeSql execSql stmt link).2.sent) : s ∈ link.sent ∨ s = stmt := by
  have hexecuted := executeSql_executed execSql stmt link
  generalize executeSql execSql stmt link = out at hexecuted h
  cases hexecuted with
  | killed _ => exact Or.inl h
  | failed _ _ | lost _ _ | answered _ _ => simpa using h

/-! ## What the loop does -/

/-- A migration is not executed, or executed and cut off from its record, or recorded; the loop
goes on when both requests are answered. -/
inductive AppliedOne (execSql : String → D → Except String D) (m : Migration) (link : Link D) :
    Except Stop Unit × Link D → Prop
  | unexecuted {stop : Stop} {link' : Link D} (hdb : link'.db = link.db) :
      AppliedOne execSql m link (.error stop, link')
  | cut {stop : Stop} {link' : Link D} {tables : D}
      (hexec : execSql m.sql link.db.tables = .ok tables)
      (hdb : link'.db = { link.db with tables })
      (hanswers : (∃ e rest, link.answers = .lost e :: rest) ∨ link.answers = [.answered] ∨
        ∃ e rest, link.answers = .answered :: .unreached e :: rest) :
      AppliedOne execSql m link (.error stop, link')
  | recorded {res : Except Stop Unit} {link' : Link D} {tables : D} {appliedOn : String}
      (hexec : execSql m.sql link.db.tables = .ok tables)
      (hdb : link'.db = { link.db with tables }.recordRow (m.row appliedOn))
      (hanswers : res = .ok () → link.answers = .answered :: .answered :: link'.answers) :
      AppliedOne execSql m link (res, link')

variable (execSql) in
/-- The row is written, or the statement that writes it does not reach the database. -/
theorem recordOne_cases (m : Migration) (link : Link D)
    (htable : link.db.schemaVersion.isSome = true) :
    ((∃ stop, (recordOne execSql m link).1 = .error stop) ∧
      (recordOne execSql m link).2.db = link.db ∧
      (link.answers = [] ∨ ∃ e rest, link.answers = .unreached e :: rest)) ∨
    ∃ appliedOn, (recordOne execSql m link).2.db = link.db.recordRow (m.row appliedOn) ∧
      ((recordOne execSql m link).1 = .ok () →
        link.answers = .answered :: (recordOne execSql m link).2.answers) := by
  have hexec := exec_record execSql m (link.clock link.sent.length) htable
  have hrecord := executeSql_executed execSql
    (.record m.version m.name (link.clock link.sent.length)) link
  unfold recordOne
  generalize executeSql execSql (.record _ _ _) link = out at hrecord
  cases hrecord with
  | killed h => exact Or.inl ⟨⟨_, rfl⟩, rfl, Or.inl h⟩
  | @failed answer rest e h hno =>
    have hunreached := hno _ hexec
    cases answer with
    | unreached e => exact Or.inl ⟨⟨_, rfl⟩, rfl, Or.inr ⟨e, rest, h⟩⟩
    | answered | lost _ => simp [Answer.reaches] at hunreached
  | lost h hdb =>
    rw [hexec, Except.ok.injEq] at hdb
    exact Or.inr ⟨_, hdb.symm, by simp⟩
  | answered h hdb =>
    rw [hexec, Except.ok.injEq] at hdb
    exact Or.inr ⟨_, hdb.symm, fun _ => h⟩

variable (execSql) in
theorem applyOne_appliedOne (m : Migration) {link : Link D}
    (htable : link.db.schemaVersion.isSome = true) :
    AppliedOne execSql m link (applyOne execSql m link) := by
  unfold applyOne
  have hmigrate := executeSql_executed execSql (.migrate m)
    (link.note ("Applying " ++ m.label ++ "..."))
  generalize executeSql execSql (.migrate m) _ = out at hmigrate
  cases hmigrate with
  | killed _ => exact .unexecuted rfl
  | failed _ _ => exact .unexecuted rfl
  | lost hanswers hexec =>
    obtain ⟨tables, htables, rfl⟩ := exec_migrate hexec
    exact .cut htables rfl (Or.inl ⟨_, _, hanswers⟩)
  | @answered answers db hanswers hexec =>
    obtain ⟨tables, htables, rfl⟩ := exec_migrate hexec
    replace hanswers : link.answers = .answered :: answers := hanswers
    dsimp only
    generalize hlink : ({ db := _, answers := answers, clock := _, sent := _, log := _ } : Link D)
      = link₁
    have hdb : link₁.db = { link.db with tables } := by
      rw [← hlink]
      rfl
    have hrest : link₁.answers = answers := by rw [← hlink]
    have hrecord := recordOne_cases execSql m link₁ (by rw [hdb]; exact htable)
    generalize recordOne execSql m link₁ = out at hrecord
    obtain ⟨res, link₂⟩ := out
    rcases hrecord with ⟨⟨stop, hstop⟩, hsame, hcut⟩ | ⟨appliedOn, hrow, hok⟩
    · dsimp only at hstop hsame
      subst hstop
      refine .cut htables (hsame.trans hdb) ?_
      rw [hrest] at hcut
      rcases hcut with hnil | ⟨e, rest, hcons⟩
      · exact Or.inr (Or.inl (by rw [hanswers, hnil]))
      · exact Or.inr (Or.inr ⟨e, rest, by rw [hanswers, hcons]⟩)
    · refine .recorded htables (hrow.trans (by rw [hdb])) ?_
      intro hres
      rw [hanswers, ← hrest, hok hres]

theorem mem_sent_recordOne {m m' : Migration} {link : Link D}
    (h : .migrate m' ∈ (recordOne execSql m link).2.sent) : .migrate m' ∈ link.sent := by
  unfold recordOne at h
  have hrecord : ∀ s, s ∈ (executeSql execSql
      (.record m.version m.name (link.clock link.sent.length)) link).2.sent →
      s ∈ link.sent ∨ s = .record m.version m.name (link.clock link.sent.length) :=
    fun s hs => mem_sent_executeSql link hs
  generalize executeSql execSql (.record _ _ _) link = out at hrecord h
  obtain ⟨res, link'⟩ := out
  cases res with
  | error stop => exact (hrecord _ h).resolve_right (by simp)
  | ok _ => exact (hrecord _ h).resolve_right (by simp)

theorem mem_sent_applyOne {m m' : Migration} {link : Link D}
    (h : .migrate m' ∈ (applyOne execSql m link).2.sent) : .migrate m' ∈ link.sent ∨ m' = m := by
  unfold applyOne at h
  have hmigrate : ∀ s, s ∈ (executeSql execSql (.migrate m)
      (link.note ("Applying " ++ m.label ++ "..."))).2.sent → s ∈ link.sent ∨ s = .migrate m :=
    fun s hs => mem_sent_executeSql (link.note _) hs
  generalize executeSql execSql (.migrate m) _ = out at hmigrate h
  obtain ⟨res, link₁⟩ := out
  cases res with
  | error stop => simpa using hmigrate _ h
  | ok _ => simpa using hmigrate _ (mem_sent_recordOne h)

/-- The migrations that the loop does not skip. -/
def pending (applied : AppliedMap) (ms : List Migration) : List Migration :=
  ms.filter fun m => !applied.contains m.version

theorem pending_cons (applied : AppliedMap) (m : Migration) (ms : List Migration) :
    pending applied (m :: ms)
      = if applied[m.version]?.isSome then pending applied ms else m :: pending applied ms := by
  rw [pending, List.filter_cons, Std.ExtTreeMap.contains_eq_isSome_getElem?]
  cases applied[m.version]? <;> rfl

variable (execSql) in
/-- The rule for the loop: it walks through the pending migrations until one of them stops it. A
note about a migration that it skips changes nothing. -/
theorem applyAll_rule {P : List Migration → Link D → Except Stop Unit × Link D → Prop}
    (hnil : ∀ link, P [] link (.ok (), link))
    (hnote : ∀ ms link line out, P ms (link.note line) out → P ms link out)
    (hstop : ∀ m ms link stop link', applyOne execSql m link = (.error stop, link') →
      P (m :: ms) link (.error stop, link'))
    (hnext : ∀ m ms link link' out, applyOne execSql m link = (.ok (), link') → P ms link' out →
      P (m :: ms) link out)
    (applied : AppliedMap) (ms : List Migration) (link : Link D) :
    P (pending applied ms) link (applyAll execSql applied ms link) := by
  induction ms generalizing link with
  | nil => exact hnil link
  | cons m ms ih =>
    rw [applyAll, pending_cons]
    cases applied[m.version]? with
    | some existing =>
      dsimp only
      rw [Option.isSome_some, if_pos rfl]
      split
      · exact hnote _ _ _ _ (ih (link.note _))
      · exact ih link
    | none =>
      dsimp only
      rw [Option.isSome_none, if_neg Bool.false_ne_true]
      cases hone : applyOne execSql m link with
      | mk res link' =>
        cases res with
        | error stop => exact hstop m _ link stop link' hone
        | ok _ => exact hnext m _ link link' _ hone (ih link')

/-- The loop executes pending migrations only. -/
theorem mem_sent_applyAll {applied : AppliedMap} {ms : List Migration} {m : Migration}
    {link : Link D} (h : .migrate m ∈ (applyAll execSql applied ms link).2.sent) :
    .migrate m ∈ link.sent ∨ m ∈ pending applied ms := by
  have hone : ∀ m' (link link' : Link D) res, applyOne execSql m' link = (res, link') →
      .migrate m ∈ link'.sent → .migrate m ∈ link.sent ∨ m = m' := by
    intro m' link link' res hrun h
    exact mem_sent_applyOne (by rw [hrun]; exact h)
  revert h
  refine applyAll_rule execSql (P := fun ms link out =>
    .migrate m ∈ out.2.sent → .migrate m ∈ link.sent ∨ m ∈ ms) ?_ ?_ ?_ ?_ applied ms link
  · exact fun link h => Or.inl h
  · exact fun ms link line out h => h
  · intro m' ms link stop link' hrun h
    rcases hone m' link link' _ hrun h with h | rfl
    · exact Or.inl h
    · exact Or.inr List.mem_cons_self
  · intro m' ms link link' out hrun ih h
    rcases ih h with h | h
    · rcases hone m' link link' _ hrun h with h | rfl
      · exact Or.inl h
      · exact Or.inr List.mem_cons_self
    · exact Or.inr (List.mem_cons_of_mem _ h)

/-- What the loop can leave behind: pending migrations, from the front on, are executed and
recorded, and then at most one is executed and cut off from its record. -/
inductive Ran (execSql : String → D → Except String D) :
    List Migration → Database D → Option Migration → Database D → Prop
  | stop (ms : List Migration) (db : Database D) : Ran execSql ms db none db
  | cut {m : Migration} {ms : List Migration} {db : Database D} {tables : D}
      (hexec : execSql m.sql db.tables = .ok tables) :
      Ran execSql (m :: ms) db (some m) { db with tables }
  | record {m : Migration} {ms : List Migration} {db db' : Database D} {tables : D}
      {appliedOn : String} {cut : Option Migration}
      (hexec : execSql m.sql db.tables = .ok tables)
      (hrest : Ran execSql ms ({ db with tables }.recordRow (m.row appliedOn)) cut db') :
      Ran execSql (m :: ms) db cut db'

/-- The migration that these answers cut off from its record: its statement reaches the database,
and the one that records it does not. -/
def cutOff : List Migration → List Answer → Option Migration
  | m :: _, .lost _ :: _ => some m
  | m :: _, [.answered] => some m
  | m :: _, .answered :: .unreached _ :: _ => some m
  | _ :: ms, .answered :: .answered :: answers => cutOff ms answers
  | _, _ => none

variable (execSql) in
theorem applyAll_ran (applied : AppliedMap) (ms : List Migration) {link : Link D}
    (htable : link.db.schemaVersion.isSome = true) :
    ∃ cut, Ran execSql (pending applied ms) link.db cut (applyAll execSql applied ms link).2.db ∧
      ∀ m, cut = some m → cutOff (pending applied ms) link.answers = some m := by
  revert htable
  refine applyAll_rule execSql (P := fun ms link out => link.db.schemaVersion.isSome = true →
    ∃ cut, Ran execSql ms link.db cut out.2.db ∧
      ∀ m, cut = some m → cutOff ms link.answers = some m) ?_ ?_ ?_ ?_ applied ms link
  · exact fun link _ => ⟨none, .stop _ _, by simp⟩
  · exact fun ms link line out h => h
  · intro m ms link stop link' hrun htable
    have hone := applyOne_appliedOne execSql m htable
    rw [hrun] at hone
    cases hone with
    | unexecuted hdb =>
      rw [hdb]
      exact ⟨none, .stop _ _, by simp⟩
    | cut hexec hdb hanswers =>
      rw [hdb]
      refine ⟨some m, .cut hexec, ?_⟩
      rintro _ ⟨⟩
      rcases hanswers with ⟨e, rest, h⟩ | h | ⟨e, rest, h⟩
      · rw [h, cutOff]
      · rw [h, cutOff]
      · rw [h, cutOff]
    | recorded hexec hdb _ =>
      rw [hdb]
      exact ⟨none, .record hexec (.stop _ _), by simp⟩
  · intro m ms link link' out hrun ih htable
    have hone := applyOne_appliedOne execSql m htable
    rw [hrun] at hone
    cases hone with
    | recorded hexec hdb hanswers =>
      obtain ⟨cut, hran, hcut⟩ := ih (by rw [hdb]; rfl)
      rw [hdb] at hran
      refine ⟨cut, .record hexec hran, ?_⟩
      intro m' hm'
      rw [hanswers rfl, cutOff]
      exact hcut m' hm'

/-! ## What a call does -/

/-- Requests have been made that change nothing but may create `schema_version`. -/
structure Asked (link link' : Link D) : Prop where
  rows : link'.db.rows = link.db.rows
  tables : link'.db.tables = link.db.tables
  table : link.db.schemaVersion.isSome = true → link'.db.schemaVersion.isSome = true
  sent : ∀ m, .migrate m ∈ link'.sent → .migrate m ∈ link.sent

theorem Asked.trans {link link' link'' : Link D} (h : Asked link link') (h' : Asked link' link'') :
    Asked link link'' where
  rows := h'.rows.trans h.rows
  tables := h'.tables.trans h.tables
  table hlink := h'.table (h.table hlink)
  sent m hm := h.sent m (h'.sent m hm)

theorem exec_asked {stmt : Statement} {db db' : Database D}
    (hstmt : stmt = .createSchemaVersion ∨ stmt = .selectApplied)
    (h : db.exec execSql stmt = .ok db') :
    db'.rows = db.rows ∧ db'.tables = db.tables ∧ db'.schemaVersion.isSome = true := by
  rcases hstmt with rfl | rfl
  · rw [Database.exec, Except.ok.injEq] at h
    subst h
    exact ⟨rfl, rfl, rfl⟩
  · rw [Database.exec] at h
    split at h
    · rename_i htable
      rw [Except.ok.injEq] at h
      subst h
      exact ⟨rfl, rfl, htable⟩
    · cases h

variable (execSql) in
/-- The table can always be created, and it can be read once it is there. -/
theorem exec_isOk {stmt : Statement} {db : Database D}
    (h : stmt = .createSchemaVersion ∨ stmt = .selectApplied ∧ db.schemaVersion.isSome = true) :
    ∃ db', db.exec execSql stmt = .ok db' := by
  rcases h with rfl | ⟨rfl, htable⟩
  · exact ⟨_, rfl⟩
  · exact ⟨db, if_pos htable⟩

variable (execSql) in
/-- A request of the listing is answered, or the process is killed, or there is an error, and then
the answer was one. -/
theorem executeSql_asked {stmt : Statement} (link : Link D)
    (hstmt : stmt = .createSchemaVersion ∨
      stmt = .selectApplied ∧ link.db.schemaVersion.isSome = true) :
    Asked link (executeSql execSql stmt link).2 ∧
      ((executeSql execSql stmt link).1 = .ok () →
        (executeSql execSql stmt link).2.db.schemaVersion.isSome = true ∧
          link.answers = .answered :: (executeSql execSql stmt link).2.answers) ∧
      ((executeSql execSql stmt link).1 = .error .killed → link.answers = []) ∧
      ∀ e, (executeSql execSql stmt link).1 = .error (.err e) →
        ∃ answer, answer ≠ .answered ∧
          link.answers = answer :: (executeSql execSql stmt link).2.answers := by
  have hexecuted := executeSql_executed execSql stmt link
  obtain ⟨db, hdb⟩ := exec_isOk execSql hstmt
  replace hstmt : stmt = .createSchemaVersion ∨ stmt = .selectApplied := hstmt.imp_right And.left
  generalize executeSql execSql stmt link = out at hexecuted
  have hsent : ∀ m, .migrate m ∈ link.sent ++ [stmt] → Statement.migrate m ∈ link.sent := by
    intro m hm
    rcases List.mem_append.mp hm with hm | hm
    · exact hm
    · rcases hstmt with rfl | rfl <;> simp at hm
  cases hexecuted with
  | killed h => exact ⟨⟨rfl, rfl, id, fun _ => id⟩, by simp, fun _ => h, by simp⟩
  | @failed answer answers e h hno =>
    refine ⟨⟨rfl, rfl, id, hsent⟩, by simp, by simp, ?_⟩
    intro _ _
    refine ⟨answer, ?_, h⟩
    rintro rfl
    exact absurd (hno db hdb) (by simp [Answer.reaches])
  | @lost answers e db h hexec =>
    obtain ⟨hrows, htables, htable⟩ := exec_asked hstmt hexec
    refine ⟨⟨hrows, htables, fun _ => htable, hsent⟩, by simp, by simp, ?_⟩
    intro _ _
    exact ⟨_, by simp, h⟩
  | @answered answers db h hexec =>
    obtain ⟨hrows, htables, htable⟩ := exec_asked hstmt hexec
    exact ⟨⟨hrows, htables, fun _ => htable, hsent⟩, fun _ => ⟨htable, h⟩, by simp, by simp⟩

/-- What `list_applied` makes of these rows. -/
def listed (rows : List VersionRow) : AppliedMap :=
  appliedMap ((dataset rows).filterMap AppliedMigration.ofValue)

/-- A call ends before the loop, or the loop runs over what the list has, or, when the list could
not be made, over nothing. -/
inductive Called (execSql : String → D → Except String D) (ms : List Migration) (link : Link D) :
    Except Stop Unit × Link D → Prop
  | stopped {stop : Stop} {link' : Link D} (hasked : Asked link link')
      (hanswers : ∀ rest, link.answers ≠ .answered :: .answered :: .answered :: rest) :
      Called execSql ms link (.error stop, link')
  | listed {link' : Link D} (hasked : Asked link link')
      (htable : link'.db.schemaVersion.isSome = true)
      (hanswers : link.answers = .answered :: .answered :: .answered :: link'.answers) :
      Called execSql ms link (applyAll execSql (listed link.db.rows) ms link')
  | unlisted {answer : Answer} {link' : Link D} (hasked : Asked link link')
      (htable : link'.db.schemaVersion.isSome = true) (hanswer : answer ≠ .answered)
      (hanswers : link.answers = .answered :: answer :: link'.answers) :
      Called execSql ms link (applyAll execSql (appliedMap []) ms link')

variable (execSql) in
theorem runMigrations_called (ms : List Migration) (link : Link D) :
    Called execSql ms link (runMigrations execSql ms link) := by
  unfold runMigrations
  obtain ⟨hasked, hok, hkilled, herr⟩ :=
    executeSql_asked execSql link (Or.inl rfl)
  generalize executeSql execSql .createSchemaVersion link = out at hasked hok hkilled herr
  obtain ⟨res, link₁⟩ := out
  cases res with
  | error stop =>
    refine .stopped hasked fun rest hrest => ?_
    cases stop with
    | killed => simp [hkilled rfl] at hrest
    | err e =>
      obtain ⟨answer, hne, hanswer⟩ := herr e rfl
      rw [hanswer, List.cons.injEq] at hrest
      exact hne hrest.1
  | ok _ =>
    obtain ⟨htable, hanswers⟩ := hok rfl
    dsimp only [listApplied] at hasked htable hanswers ⊢
    obtain ⟨hasked₂, hok₂, hkilled₂, herr₂⟩ :=
      executeSql_asked execSql link₁ (Or.inl rfl)
    generalize executeSql execSql .createSchemaVersion link₁ = out at hasked₂ hok₂ hkilled₂ herr₂
    obtain ⟨res, link₂⟩ := out
    cases res with
    | error stop =>
      cases stop with
      | killed =>
        refine .stopped (hasked.trans hasked₂) fun rest hrest => ?_
        simp [hanswers, hkilled₂ rfl] at hrest
      | err e =>
        obtain ⟨answer, hne, hanswer⟩ := herr₂ e rfl
        refine .unlisted (hasked.trans hasked₂) (hasked₂.table htable) hne ?_
        rw [hanswers, hanswer]
    | ok _ =>
      obtain ⟨htable₂, hanswers₂⟩ := hok₂ rfl
      dsimp only [queryJson] at hasked₂ htable₂ hanswers₂ ⊢
      obtain ⟨hasked₃, hok₃, hkilled₃, herr₃⟩ :=
        executeSql_asked execSql link₂ (Or.inr ⟨rfl, htable₂⟩)
      generalize executeSql execSql .selectApplied link₂ = out at hasked₃ hok₃ hkilled₃ herr₃
      obtain ⟨res, link₃⟩ := out
      have hall := (hasked.trans hasked₂).trans hasked₃
      cases res with
      | error stop =>
        refine .stopped hall fun rest hrest => ?_
        cases stop with
        | killed => simp [hanswers, hanswers₂, hkilled₃ rfl] at hrest
        | err e =>
          obtain ⟨answer, hne, hanswer⟩ := herr₃ e rfl
          simp only [hanswers, hanswers₂, hanswer, List.cons.injEq, true_and] at hrest
          exact hne hrest.1
      | ok _ =>
        obtain ⟨htable₃, hanswers₃⟩ := hok₃ rfl
        have hcalled : Called execSql ms link (applyAll execSql (listed link.db.rows) ms link₃) :=
          .listed hall htable₃ (by rw [hanswers, hanswers₂, hanswers₃])
        rw [← hall.rows] at hcalled
        exact hcalled

/-! ## What the list has -/

theorem readI64_toInt (v : Int32) : (Value.number (.int v.toInt)).readI64 = some v.toInt := by
  have hle := Int32.le_toInt v
  have hlt := Int32.toInt_lt v
  simp only [Value.readI64]
  rw [if_pos]
  constructor <;> omega

theorem ofValue_value (row : VersionRow) :
    (AppliedMigration.ofValue row.value).map AppliedMigration.version
      = some (row.version.getD 0) := by
  unfold AppliedMigration.ofValue VersionRow.value
  cases row.version with
  | some v => simp [Value.asArray, readI64_toInt]
  | none => simp [Value.asArray, Value.readI64]

theorem contains_appliedMap (applied : List AppliedMigration) (version : Int32) :
    (appliedMap applied).contains version = true ↔ ∃ m ∈ applied, m.version = version := by
  rw [appliedMap, Std.ExtTreeMap.contains_ofList, List.contains_iff_mem, List.map_map, List.mem_map]
  rfl

/-- The list has the versions of the rows; null counts as 0. -/
theorem contains_listed (rows : List VersionRow) (version : Int32) :
    (listed rows).contains version = true ↔ ∃ row ∈ rows, row.version.getD 0 = version := by
  rw [listed, contains_appliedMap]
  constructor
  · rintro ⟨m, hm, rfl⟩
    obtain ⟨v, hv, hread⟩ := List.mem_filterMap.mp hm
    obtain ⟨row, hrow, rfl⟩ := List.mem_map.mp hv
    have hversion := ofValue_value row
    rw [hread, Option.map_some, Option.some_inj] at hversion
    exact ⟨row, (List.mem_insertionSort _).mp hrow, hversion.symm⟩
  · rintro ⟨row, hrow, rfl⟩
    obtain ⟨m, hm, hversion⟩ := Option.map_eq_some_iff.mp (ofValue_value row)
    refine ⟨m, List.mem_filterMap.mpr ⟨row.value, ?_, hm⟩, hversion⟩
    exact List.mem_map_of_mem ((List.mem_insertionSort _).mpr hrow)

end Effects

end Migrate
end Cryptomeria
