import Cryptomeria.Migrate.Recorded

/-!
# Interrupted migrations

The three embedded migrations on a database of two tables. `CREATE TABLE IF NOT EXISTS` can be
executed again, `ALTER TABLE ADD COLUMN` cannot. So a call that is cut off can be made up for by a
later one, unless it is cut off between the execution of the third migration and its record
(`interrupted_calls_resume`).
-/

set_option autoImplicit false

namespace Cryptomeria
namespace Migrate

/-! ## The embedded migrations -/

def createTrades : Migration where
  version := 1
  name := "create_trades"
  sql := "CREATE TABLE IF NOT EXISTS trades (\n    inst_id SYMBOL INDEX TYPE POSTING,\n"
    ++ "    trade_id SYMBOL,\n    px DOUBLE,\n    sz DOUBLE,\n    side SYMBOL,\n"
    ++ "    exchange SYMBOL INDEX TYPE POSTING,\n    ts TIMESTAMP\n"
    ++ ") TIMESTAMP(ts) PARTITION BY HOUR TTL 1 HOURS;"

def createLobLevels : Migration where
  version := 2
  name := "create_lob_levels"
  sql := "CREATE TABLE IF NOT EXISTS lob_levels (\n    inst_id SYMBOL INDEX TYPE POSTING,\n"
    ++ "    ts TIMESTAMP,\n    action SYMBOL,\n"
    ++ "    side SYMBOL INDEX TYPE POSTING INCLUDE(price),\n    price DOUBLE,\n    size DOUBLE,\n"
    ++ "    count DOUBLE,\n    orders DOUBLE,\n    exchange SYMBOL INDEX TYPE POSTING\n"
    ++ ") TIMESTAMP(ts) PARTITION BY HOUR TTL 1 HOURS;\n"

def addBestDiff : Migration where
  version := 3
  name := "add_best_diff_to_lob_levels"
  sql := "ALTER TABLE lob_levels ADD COLUMN best_diff DOUBLE;\n"

/-- `MIGRATIONS` -/
def migrations : List Migration := [createTrades, createLobLevels, addBestDiff]

/-- The columns of the two tables, for those that exist. -/
structure Tables where
  trades : Option (List String) := none
  lobLevels : Option (List String) := none

def tradesColumns : List String := ["inst_id", "trade_id", "px", "sz", "side", "exchange", "ts"]

def lobLevelsColumns : List String :=
  ["inst_id", "ts", "action", "side", "price", "size", "count", "orders", "exchange"]

/-- What the database does with the three statements. A table that exists is not created, and a
column that exists cannot be added. -/
def Tables.execSql (sql : String) (tables : Tables) : Except String Tables :=
  if sql = createTrades.sql then
    .ok { tables with trades := some (tables.trades.getD tradesColumns) }
  else if sql = createLobLevels.sql then
    .ok { tables with lobLevels := some (tables.lobLevels.getD lobLevelsColumns) }
  else if sql = addBestDiff.sql then
    match tables.lobLevels with
    | none => .error "table does not exist [table=lob_levels]"
    | some columns =>
      if "best_diff" ∈ columns then .error "column 'best_diff' already exists"
      else .ok { tables with lobLevels := some (columns ++ ["best_diff"]) }
  else .error "unexpected statement"

namespace Tables

variable {tables tables' : Tables}

theorem execSql_createTrades (tables : Tables) :
    tables.execSql createTrades.sql
      = .ok { tables with trades := some (tables.trades.getD tradesColumns) } := if_pos rfl

theorem execSql_createLobLevels (tables : Tables) :
    tables.execSql createLobLevels.sql
      = .ok { tables with lobLevels := some (tables.lobLevels.getD lobLevelsColumns) } := by
  rw [execSql, if_neg (by decide +kernel), if_pos rfl]

/-- The column is added to a table that is there and does not have it. -/
theorem execSql_addBestDiff {columns : List String} (htable : tables.lobLevels = some columns)
    (hcolumn : "best_diff" ∉ columns) :
    tables.execSql addBestDiff.sql
      = .ok { tables with lobLevels := some (columns ++ ["best_diff"]) } := by
  rw [execSql, if_neg (by decide +kernel), if_neg (by decide +kernel), if_pos rfl]
  simp only [htable, hcolumn, if_false]

theorem of_execSql_addBestDiff (h : tables.execSql addBestDiff.sql = .ok tables') :
    tables'.lobLevels.isSome = true := by
  rw [execSql, if_neg (by decide +kernel), if_neg (by decide +kernel), if_pos rfl] at h
  cases htable : tables.lobLevels with
  | none => simp [htable] at h
  | some columns =>
    simp only [htable] at h
    split at h
    · cases h
    · rw [Except.ok.injEq] at h
      subst h
      rfl

end Tables

/-! ## Databases from which the migrations can be resumed -/

/-- No version has two rows, a recorded second migration has made its table, and the column of the
third is not there before its record. -/
structure Resumable (db : Database Tables) : Prop where
  once : ∀ m ∈ migrations, db.count m.version ≤ 1
  created : db.Recorded 2 → db.tables.lobLevels.isSome = true
  unaltered : ¬ db.Recorded 3 → ∀ columns ∈ db.tables.lobLevels, "best_diff" ∉ columns

theorem mem_migrations {m : Migration} :
    m ∈ migrations ↔ m = createTrades ∨ m = createLobLevels ∨ m = addBestDiff := by
  simp [migrations]

theorem Database.recorded_recordRow {D : Type} (db : Database D) (m : Migration)
    (appliedOn : String) (version : Int32) :
    (db.recordRow (m.row appliedOn)).Recorded version
      ↔ db.Recorded version ∨ m.version = version := by
  have hrows : (db.recordRow (m.row appliedOn)).rows = db.rows ++ [m.row appliedOn] := rfl
  rw [Recorded, hrows]
  simp [Recorded, Migration.row]

namespace Resumable

variable {db db' : Database Tables} {m : Migration} {tables : Tables}

theorem congr (h : Resumable db) (hrows : db'.rows = db.rows) (htables : db'.tables = db.tables) :
    Resumable db' := by
  have hcount : ∀ version, db'.count version = db.count version := by
    intro version
    rw [Database.count, hrows]
    rfl
  have hrecorded : ∀ version, db'.Recorded version ↔ db.Recorded version := by
    intro version
    rw [Database.Recorded, hrows]
    rfl
  refine ⟨?_, ?_, ?_⟩
  · intro m hm
    rw [hcount]
    exact h.once m hm
  · rw [hrecorded, htables]
    exact h.created
  · rw [hrecorded, htables]
    exact h.unaltered

/-- The first two migrations can be executed without a record. -/
theorem execute (h : Resumable db) (hm : m = createTrades ∨ m = createLobLevels)
    (hexec : Tables.execSql m.sql db.tables = .ok tables) :
    Resumable { db with tables } := by
  rcases hm with rfl | rfl
  · rw [Tables.execSql_createTrades, Except.ok.injEq] at hexec
    subst hexec
    exact ⟨h.once, h.created, h.unaltered⟩
  · rw [Tables.execSql_createLobLevels, Except.ok.injEq] at hexec
    subst hexec
    refine ⟨h.once, fun _ => rfl, ?_⟩
    intro hno columns hcolumns
    rw [Option.mem_def, Option.some_inj] at hcolumns
    subst hcolumns
    cases hold : db.tables.lobLevels with
    | none => decide
    | some columns => exact h.unaltered hno columns hold

/-- A migration without a row is executed and recorded. -/
theorem record (h : Resumable db) (hm : m ∈ migrations) (hnew : ¬ db.Recorded m.version)
    (hexec : Tables.execSql m.sql db.tables = .ok tables) (appliedOn : String) :
    Resumable ({ db with tables }.recordRow (m.row appliedOn)) := by
  have honce : ∀ m' ∈ migrations,
      ({ db with tables }.recordRow (m.row appliedOn)).count m'.version ≤ 1 := by
    intro m' hm'
    have hbefore := h.once m' hm'
    have hzero := Database.count_eq_zero.mpr hnew
    have hsame : Database.count { db with tables } m'.version = db.count m'.version := rfl
    rw [Database.count_recordRow, hsame]
    split
    · rename_i heq
      rw [← heq] at hbefore ⊢
      omega
    · exact hbefore
  have hrecorded : ∀ version, ({ db with tables }.recordRow (m.row appliedOn)).Recorded version ↔
      db.Recorded version ∨ m.version = version :=
    Database.recorded_recordRow _ m appliedOn
  rcases mem_migrations.mp hm with rfl | rfl | rfl
  · have hexecuted := h.execute (Or.inl rfl) hexec
    refine ⟨honce, ?_, ?_⟩
    · intro hrow
      exact hexecuted.created (((hrecorded 2).mp hrow).resolve_right (by decide))
    · intro hno
      exact hexecuted.unaltered fun hrow => hno ((hrecorded 3).mpr (Or.inl hrow))
  · have hexecuted := h.execute (Or.inr rfl) hexec
    rw [Tables.execSql_createLobLevels, Except.ok.injEq] at hexec
    refine ⟨honce, ?_, ?_⟩
    · intro _
      rw [← hexec]
      rfl
    · intro hno
      exact hexecuted.unaltered fun hrow => hno ((hrecorded 3).mpr (Or.inl hrow))
  · refine ⟨honce, ?_, ?_⟩
    · intro _
      exact Tables.of_execSql_addBestDiff hexec
    · intro hno
      exact absurd ((hrecorded 3).mpr (Or.inr rfl)) hno

/-- Whatever the loop leaves behind, unless it cuts the third migration off from its record. -/
theorem of_ran {ps : List Migration} {cut : Option Migration}
    (hran : Ran Tables.execSql ps db cut db') (hps : ∀ m ∈ ps, m ∈ migrations)
    (hversions : (ps.map Migration.version).Nodup) (hnew : ∀ m ∈ ps, ¬ db.Recorded m.version)
    (hcut : cut ≠ some addBestDiff) (h : Resumable db) : Resumable db' := by
  induction hran with
  | stop _ _ => exact h
  | @cut m ps db tables hexec =>
    rcases mem_migrations.mp (hps m List.mem_cons_self) with rfl | rfl | rfl
    · exact h.execute (Or.inl rfl) hexec
    · exact h.execute (Or.inr rfl) hexec
    · exact absurd rfl hcut
  | @record m ps db db' tables appliedOn cut hexec _ ih =>
    obtain ⟨hm, hrest⟩ := List.forall_mem_cons.mp hps
    obtain ⟨hnewm, hnewrest⟩ := List.forall_mem_cons.mp hnew
    rw [List.map_cons, List.nodup_cons] at hversions
    refine ih hrest hversions.2 ?_ hcut (h.record hm hnewm hexec appliedOn)
    intro m' hm' hrow
    rcases (Database.recorded_recordRow _ m appliedOn _).mp hrow with hrow | heq
    · exact hnewrest m' hm' hrow
    · exact hversions.1 (heq ▸ List.mem_map_of_mem hm')

end Resumable

/-! ## Calls -/

/-- The migrations without a row. -/
def Database.unrecorded {D : Type} (db : Database D) (ms : List Migration) : List Migration :=
  ms.filter fun m => ¬ db.Recorded m.version

/-- What is left for the loop. -/
def afterListing : List Answer → List Answer
  | .answered :: .answered :: answers => answers.drop 1
  | answers => answers.drop 2

/-- The list of applied migrations can be made or has nothing to miss, and the third migration is
not executed without being recorded. -/
def LeavesResumable (db : Database Tables) (c : Call) : Prop :=
  ListsRecorded migrations db c ∧
    cutOff (db.unrecorded migrations) (afterListing c.answers) ≠ some addBestDiff

instance (db : Database Tables) (c : Call) : Decidable (LeavesResumable db c) :=
  inferInstanceAs (Decidable (_ ∧ _))

theorem pending_listed (db : Database Tables) :
    pending (listed db.rows) migrations = db.unrecorded migrations := by
  apply List.filter_congr
  intro m hm
  have hne : m.version ≠ 0 := by
    rcases mem_migrations.mp hm with rfl | rfl | rfl <;> decide
  have hlisted : (listed db.rows).contains m.version = true ↔ db.Recorded m.version := by
    rw [contains_listed, Database.Recorded]
    refine exists_congr fun row => and_congr_right fun _ => ?_
    cases row.version with
    | none => simp [hne.symm]
    | some v => simp
  by_cases hrow : db.Recorded m.version
  · rw [hlisted.mpr hrow]
    simp [hrow]
  · rw [Bool.eq_false_iff.mpr fun h => hrow (hlisted.mp h)]
    simp [hrow]

theorem resumable_step {db : Database Tables} {c : Call} (h : Resumable db)
    (hC : LeavesResumable db c) : Resumable (callStep Tables.execSql migrations db c) := by
  obtain ⟨hlists, hcutOff⟩ := hC
  have hloop : ∀ (applied : AppliedMap) (link : Link Tables),
      Asked { db, answers := c.answers, clock := c.clock } link →
      link.db.schemaVersion.isSome = true →
      pending applied migrations = db.unrecorded migrations →
      link.answers = afterListing c.answers →
      Resumable (applyAll Tables.execSql applied migrations link).2.db := by
    intro applied link hasked htable hpending hanswers
    obtain ⟨cut, hran, hcut⟩ := applyAll_ran Tables.execSql applied migrations htable
    rw [hpending] at hran hcut
    refine Resumable.of_ran hran ?_ ?_ ?_ ?_ (h.congr hasked.rows hasked.tables)
    · exact fun m hm => List.mem_of_mem_filter hm
    · exact List.Nodup.sublist (List.filter_sublist.map _) (by decide)
    · intro m hm hrow
      rw [Database.Recorded, hasked.rows] at hrow
      exact of_decide_eq_true (List.mem_filter.mp hm).2 hrow
    · intro heq
      rw [← hanswers] at hcutOff
      exact hcutOff (hcut _ heq)
  have hcalled := runMigrations_called Tables.execSql migrations
    { db, answers := c.answers, clock := c.clock }
  unfold callStep call
  generalize runMigrations Tables.execSql migrations _ = out at hcalled
  cases hcalled with
  | stopped hasked _ => exact h.congr hasked.rows hasked.tables
  | listed hasked htable hanswers =>
    apply hloop _ _ hasked htable (pending_listed db)
    rw [show c.answers = _ from hanswers]
    rfl
  | @unlisted answer link hasked htable hne hanswers =>
    replace hanswers : c.answers = .answered :: answer :: link.answers := hanswers
    have hnone := hlists (Call.listFails_of hne hanswers)
    apply hloop _ _ hasked htable
    · apply List.filter_congr
      intro m hm
      have hempty : (appliedMap []).contains m.version = false := rfl
      rw [hempty]
      simp [hnone m hm]
    · rw [hanswers]
      cases answer with
      | answered => exact absurd rfl hne
      | lost _ | unreached _ => rfl

/-! ## A call whose requests are all answered -/

section Answered

variable {D : Type} {execSql : String → D → Except String D} {m : Migration} {ms : List Migration}
  {link : Link D}

/-- Every migration of the list can be executed, one after the other. -/
def Runs (execSql : String → D → Except String D) : List Migration → D → Prop
  | [], _ => True
  | m :: ms, tables => ∃ tables', execSql m.sql tables = .ok tables' ∧ Runs execSql ms tables'

/-- Two answers, and a statement that can be executed: the migration is recorded. -/
theorem applyOne_ok {answers : List Answer} {tables : D}
    (htable : link.db.schemaVersion.isSome = true)
    (hanswers : link.answers = .answered :: .answered :: answers)
    (hexec : execSql m.sql link.db.tables = .ok tables) :
    (applyOne execSql m link).1 = .ok () := by
  obtain ⟨rows, hrows⟩ := Option.isSome_iff_exists.mp htable
  simp [applyOne, recordOne, executeSql, Link.note, hanswers, Database.exec, hexec, hrows]

variable (execSql) in
/-- The loop records every pending migration. -/
theorem applyAll_answered (applied : AppliedMap) (ms : List Migration) (n : ℕ)
    (htable : link.db.schemaVersion.isSome = true)
    (hruns : Runs execSql (pending applied ms) link.db.tables)
    (hanswers : link.answers = List.replicate n .answered)
    (hlength : 2 * (pending applied ms).length ≤ n) :
    (applyAll execSql applied ms link).1 = .ok () ∧
      ∀ version, (applyAll execSql applied ms link).2.db.count version
        = link.db.count version
          + ((pending applied ms).filter fun m => m.version = version).length := by
  revert n
  revert htable hruns
  refine applyAll_rule execSql (P := fun ms link out => link.db.schemaVersion.isSome = true →
    Runs execSql ms link.db.tables → ∀ n, link.answers = List.replicate n .answered →
      2 * ms.length ≤ n → out.1 = .ok () ∧ ∀ version, out.2.db.count version
        = link.db.count version + (ms.filter fun m => m.version = version).length)
    ?_ ?_ ?_ ?_ applied ms link
  · exact fun link _ _ _ _ _ => ⟨rfl, fun _ => rfl⟩
  · exact fun ms link line out h => h
  · intro m ms link stop link' hrun htable hruns n hanswers hlength
    rw [List.length_cons] at hlength
    obtain ⟨n, rfl⟩ : ∃ k, n = k + 2 := ⟨n - 2, by omega⟩
    obtain ⟨tables, hexec, -⟩ := hruns
    have hok := applyOne_ok htable hanswers hexec
    rw [hrun] at hok
    cases hok
  · intro m ms link link' out hrun ih htable hruns n hanswers hlength
    rw [List.length_cons] at hlength
    obtain ⟨n, rfl⟩ : ∃ k, n = k + 2 := ⟨n - 2, by omega⟩
    obtain ⟨tables, hexec, hruns⟩ := hruns
    have hone := applyOne_appliedOne execSql m htable
    rw [hrun] at hone
    cases hone with
    | recorded hexec' hdb hrest =>
      rw [hexec, Except.ok.injEq] at hexec'
      subst hexec'
      have htail : link'.answers = List.replicate n .answered := by
        have hcons := (hrest rfl).symm.trans hanswers
        rw [List.replicate_succ, List.replicate_succ] at hcons
        simpa using hcons
      obtain ⟨hdone, hcount⟩ := ih (by rw [hdb]; rfl) (by rw [hdb]; exact hruns) n htail
        (by omega)
      refine ⟨hdone, ?_⟩
      intro version
      have hsame : Database.count { link.db with tables } version = link.db.count version := rfl
      rw [hcount, hdb, Database.count_recordRow, hsame, List.filter_cons]
      by_cases heq : m.version = version
      · simp only [heq, decide_true, if_true, List.length_cons]
        omega
      · simp only [heq, decide_false, if_false, Bool.false_eq_true]
        omega

end Answered

theorem Database.unrecorded_cons {D : Type} (db : Database D) (m : Migration)
    (ms : List Migration) :
    db.unrecorded (m :: ms)
      = if db.Recorded m.version then db.unrecorded ms else m :: db.unrecorded ms := by
  rw [unrecorded, List.filter_cons]
  by_cases h : db.Recorded m.version
  · simp [h, unrecorded]
  · simp [h, unrecorded]

namespace Resumable

variable {db : Database Tables}

/-- The second and the third migration, as far as they are not recorded, can be executed. -/
theorem runs_lobLevels (h : Resumable db) {tables : Tables}
    (htables : tables.lobLevels = db.tables.lobLevels) :
    Runs Tables.execSql (db.unrecorded [createLobLevels, addBestDiff]) tables := by
  have hlast : ∀ tables : Tables, tables.lobLevels.isSome = true →
      (¬ db.Recorded 3 → ∀ columns ∈ tables.lobLevels, "best_diff" ∉ columns) →
      Runs Tables.execSql (db.unrecorded [addBestDiff]) tables := by
    intro tables hsome hcolumns
    obtain ⟨columns, hlob⟩ := Option.isSome_iff_exists.mp hsome
    rw [Database.unrecorded_cons]
    split
    · trivial
    · rename_i hno
      exact ⟨_, Tables.execSql_addBestDiff hlob (hcolumns hno columns hlob), trivial⟩
  rw [Database.unrecorded_cons]
  split
  · rename_i hrow
    apply hlast
    · rw [htables]
      exact h.created hrow
    · rw [htables]
      exact h.unaltered
  · refine ⟨_, Tables.execSql_createLobLevels tables, hlast _ rfl ?_⟩
    intro hno columns hcolumns
    rw [Option.mem_def, Option.some_inj, htables] at hcolumns
    subst hcolumns
    cases hold : db.tables.lobLevels with
    | none => decide
    | some columns => exact h.unaltered hno columns hold

theorem runs (h : Resumable db) :
    Runs Tables.execSql (db.unrecorded migrations) db.tables := by
  rw [migrations, Database.unrecorded_cons]
  split
  · exact h.runs_lobLevels rfl
  · exact ⟨_, Tables.execSql_createTrades _, h.runs_lobLevels rfl⟩

/-- A migration has a row, or it is the one of its version that has none. -/
theorem count_add (h : Resumable db) {m : Migration} (hm : m ∈ migrations) :
    db.count m.version
      + ((db.unrecorded migrations).filter fun m' => m'.version = m.version).length = 1 := by
  have honce := h.once m hm
  have hversion : (migrations.filter fun m' => m'.version = m.version) = [m] := by
    rcases mem_migrations.mp hm with rfl | rfl | rfl <;> decide +kernel
  have hpending : ((db.unrecorded migrations).filter fun m' => m'.version = m.version)
      = db.unrecorded [m] := by
    rw [Database.unrecorded, List.filter_comm, hversion]
    rfl
  rw [hpending, Database.unrecorded_cons]
  split
  · rename_i hrow
    have hpos : db.count m.version ≠ 0 := fun hzero => Database.count_eq_zero.mp hzero hrow
    simp only [Database.unrecorded, List.filter_nil, List.length_nil]
    omega
  · rename_i hno
    rw [Database.count_eq_zero.mpr hno]
    rfl

end Resumable

/-- A further call in which every request is answered succeeds, and each of the three versions has
one row after it. There are nine requests at most. -/
def Resumes (db : Database Tables) : Prop :=
  ∀ (n : ℕ) (clock : ℕ → String), 9 ≤ n →
    (call Tables.execSql migrations db { answers := List.replicate n .answered, clock }).1
        = .ok () ∧
      ∀ m ∈ migrations, (callStep Tables.execSql migrations db
        { answers := List.replicate n .answered, clock }).count m.version = 1

theorem Resumable.resumes {db : Database Tables} (h : Resumable db) : Resumes db := by
  intro n clock hn
  obtain ⟨n, rfl⟩ : ∃ k, n = k + 3 := ⟨n - 3, by omega⟩
  have hcalled := runMigrations_called Tables.execSql migrations
    { db, answers := List.replicate (n + 3) .answered, clock }
  unfold callStep call
  generalize runMigrations Tables.execSql migrations _ = out at hcalled
  cases hcalled with
  | stopped _ hanswers => exact absurd rfl (hanswers (List.replicate n .answered))
  | @unlisted answer link _ _ hne hanswers =>
    replace hanswers : List.replicate (n + 3) .answered = .answered :: answer :: link.answers :=
      hanswers
    rw [List.replicate_succ, List.replicate_succ] at hanswers
    simp only [List.cons.injEq, true_and] at hanswers
    exact absurd hanswers.1.symm hne
  | @listed link hasked htable hanswers =>
    have hlink : link.answers = List.replicate n .answered := by
      have hcons : List.replicate (n + 3) .answered
        = .answered :: .answered :: .answered :: link.answers := hanswers
      simpa [List.replicate_succ] using hcons.symm
    have hlength : (db.unrecorded migrations).length ≤ 3 := List.length_filter_le _ migrations
    have hpending := pending_listed db
    obtain ⟨hok, hcount⟩ := applyAll_answered Tables.execSql (listed db.rows) migrations n
      htable (by rw [hpending, hasked.tables]; exact h.runs) hlink
      (by rw [hpending]; omega)
    refine ⟨hok, ?_⟩
    intro m hm
    have hsame : link.db.count m.version = db.count m.version := by
      rw [Database.count, hasked.rows]
      rfl
    rw [hcount, hpending, hsame]
    exact h.count_add hm

/-! ## Runs -/

/-- **When interrupted migrations can be resumed.** After any number of calls on an empty database,
each cut off anywhere, a further call whose requests are all answered succeeds and leaves one row
for each version, provided that in every call the list of applied migrations could be made or had
nothing to miss, and that no call executed the third migration without recording it. -/
theorem interrupted_calls_resume (cs : List Call)
    (hC : Trace.EachStep (callStep Tables.execSql migrations) LeavesResumable
      { tables := {} } cs) :
    Trace.Always (callStep Tables.execSql migrations) Resumes { tables := {} } cs := by
  have hempty : Resumable { tables := {} } := by
    refine ⟨by decide, ?_, ?_⟩
    · rintro ⟨row, hrow, -⟩
      simp [Database.rows] at hrow
    · intro _ columns hcolumns
      simp at hcolumns
  have hrun : Trace.Always (callStep Tables.execSql migrations) Resumable { tables := {} } cs :=
    Trace.always_of_eachStep (H := fun _ => True) hempty (fun _ _ => trivial) hC
      fun _ _ h _ hcall => resumable_step h hcall
  exact hrun.mono fun _ h => h.resumes

/-- The process is killed after the first migration was recorded and the second executed. -/
def killedCall : Call := { answers := List.replicate 6 .answered }

theorem interrupted_calls_resume_killedCall :
    Resumes (callStep Tables.execSql migrations { tables := {} } killedCall) := by
  refine (interrupted_calls_resume [killedCall] ?_).last
  simp only [Trace.eachStep_cons, Trace.eachStep_nil, and_true]
  decide +kernel

/-- The third migration is executed, and the request that records it fails: the column is there, and
every further call fails on it. -/
theorem third_migration_stuck :
    ¬ ∀ cs : List Call,
      Trace.Always (callStep Tables.execSql migrations) Resumes { tables := {} } cs := by
  intro h
  have hcall := (h [{ answers := List.replicate 8 .answered ++ [.unreached "timeout"] }]).last
  have hok := (hcall 9 (fun _ => "") (by decide)).1
  revert hok
  decide +kernel

end Migrate
end Cryptomeria
