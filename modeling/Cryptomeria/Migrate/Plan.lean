import Cryptomeria.Migrate.Resume

/-!
# The requests of a call

A call of `run_migrations` that gets its list works off a plan: the migrations without a row, in
the order of the list, each followed by its record. It sends the plan up to the first request that
fails (`Sends`). A call that succeeds has sent the whole plan, so every migration of the list has a
row, and a further call that gets its list has nothing to do (`runMigrations_prefixExact`).
-/

set_option autoImplicit false

namespace Cryptomeria
namespace Migrate

/-! ## Sending a plan -/

/-- Statements are sent one after the other, up to the first that fails: it has no answer, or the
database refuses it. What has no answer may have been executed. -/
inductive Sends {D : Type} (execSql : String → D → Except String D) :
    List Statement → Database D → List Answer → List Statement → Except Stop Unit → Database D →
      Prop
  | done {db : Database D} {answers : List Answer} :
      Sends execSql [] db answers [] (.ok ()) db
  | killed {stmt : Statement} {stmts : List Statement} {db : Database D} :
      Sends execSql (stmt :: stmts) db [] [] (.error .killed) db
  | failed {stmt : Statement} {stmts : List Statement} {db db' : Database D} {answer : Answer}
      {answers : List Answer} {e : String}
      (hfails : answer = .answered → ∀ db', db.exec execSql stmt ≠ .ok db')
      (hdb : db' = db ∨ db.exec execSql stmt = .ok db') :
      Sends execSql (stmt :: stmts) db (answer :: answers) [stmt] (.error (.err e)) db'
  | next {stmt : Statement} {stmts sent : List Statement} {db db' db'' : Database D}
      {answers : List Answer} {res : Except Stop Unit}
      (hexec : db.exec execSql stmt = .ok db')
      (hrest : Sends execSql stmts db' answers sent res db'') :
      Sends execSql (stmt :: stmts) db (.answered :: answers) (stmt :: sent) res db''

/-- The migrations of the list, each followed by its record. The time of a record is that of its
request, the `n`th of the call and so on. -/
def plan (clock : ℕ → String) : ℕ → List Migration → List Statement
  | _, [] => []
  | n, m :: ms =>
    .migrate m :: .record m.version m.name (clock (n + 1)) :: plan clock (n + 2) ms

/-- The migrations among the statements. -/
def executed (stmts : List Statement) : List Migration :=
  stmts.filterMap fun
    | .migrate m => some m
    | _ => none

theorem executed_plan (clock : ℕ → String) (n : ℕ) (ms : List Migration) :
    executed (plan clock n ms) = ms := by
  induction ms generalizing n with
  | nil => rfl
  | cons m ms ih =>
    have hcons : executed (plan clock n (m :: ms)) = m :: executed (plan clock (n + 2) ms) := rfl
    rw [hcons, ih]

section Sends

variable {D : Type} {execSql : String → D → Except String D} {stmt : Statement}
  {stmts sent : List Statement} {db db' : Database D} {answers : List Answer}
  {res : Except Stop Unit}

theorem Sends.isPrefix (h : Sends execSql stmts db answers sent res db') : sent <+: stmts := by
  induction h with
  | done => exact List.prefix_rfl
  | killed => exact List.nil_prefix
  | failed _ _ => exact ⟨_, rfl⟩
  | next _ _ ih => exact List.cons_prefix_cons.mpr ⟨rfl, ih⟩

/-- No request removes a row. -/
theorem rows_exec (h : db.exec execSql stmt = .ok db') : db.rows <+: db'.rows := by
  cases stmt with
  | createSchemaVersion => rw [(exec_asked (Or.inl rfl) h).1]
  | selectApplied => rw [(exec_asked (Or.inr rfl) h).1]
  | migrate m =>
    obtain ⟨tables, -, rfl⟩ := exec_migrate h
    exact List.prefix_rfl
  | record version name appliedOn =>
    rw [Database.exec] at h
    split at h
    · rename_i rows hrows
      rw [Except.ok.injEq] at h
      subst h
      rw [Database.rows, hrows]
      exact ⟨_, rfl⟩
    · cases h

theorem recorded_exec (h : db.exec execSql stmt = .ok db') {version : Int32}
    (hrow : db.Recorded version) : db'.Recorded version := by
  obtain ⟨row, hmem, hversion⟩ := hrow
  exact ⟨row, (rows_exec h).subset hmem, hversion⟩

theorem Sends.recorded_of_recorded (h : Sends execSql stmts db answers sent res db')
    {version : Int32} (hrow : db.Recorded version) : db'.Recorded version := by
  induction h with
  | done | killed => exact hrow
  | failed _ hdb =>
    rcases hdb with rfl | hexec
    · exact hrow
    · exact recorded_exec hexec hrow
  | next hexec _ ih => exact ih (recorded_exec hexec hrow)

/-- When all requests of the plan succeed, every migration of it has a row. -/
theorem Sends.recorded_of_ok {clock : ℕ → String} {n : ℕ} {ms : List Migration}
    (h : Sends execSql (plan clock n ms) db answers sent (.ok ()) db') :
    ∀ m ∈ ms, db'.Recorded m.version := by
  induction ms generalizing n db answers sent with
  | nil => simp
  | cons m ms ih =>
    cases h with
    | next hmigrate hrest =>
      cases hrest with
      | @next _ _ _ _ db₂ _ _ _ hrecord hrest =>
        rw [List.forall_mem_cons]
        refine ⟨hrest.recorded_of_recorded ?_, ih hrest⟩
        rw [Database.exec] at hrecord
        split at hrecord
        · rw [Except.ok.injEq] at hrecord
          subst hrecord
          exact ⟨m.row (clock (n + 1)), by simp [Database.rows, Migration.row], rfl⟩
        · cases hrecord

end Sends

/-! ## The loop sends the plan -/

section Loop

variable {D : Type} (execSql : String → D → Except String D)

/-- What a call sends to get its list. -/
def listing : List Statement := [.createSchemaVersion, .createSchemaVersion, .selectApplied]

/-- A request ends what is sent, whatever its error says, or the next one follows. -/
theorem executeSql_sends (stmt : Statement) (link : Link D) :
    (∃ stop link' sent, executeSql execSql stmt link = (.error stop, link') ∧
      link'.sent = link.sent ++ sent ∧ ∀ (f : String → String) stmts,
        Sends execSql (stmt :: stmts) link.db link.answers sent (.error (stop.mapErr f))
          link'.db) ∨
    ∃ link', executeSql execSql stmt link = (.ok (), link') ∧ link'.clock = link.clock ∧
      link'.sent = link.sent ++ [stmt] ∧ link.answers = .answered :: link'.answers ∧
        link.db.exec execSql stmt = .ok link'.db := by
  have hexecuted := executeSql_executed execSql stmt link
  generalize executeSql execSql stmt link = out at hexecuted
  cases hexecuted with
  | killed h =>
    refine Or.inl ⟨_, _, [], rfl, (List.append_nil _).symm, fun f stmts => ?_⟩
    rw [h]
    exact .killed
  | @failed answer answers e h hno =>
    refine Or.inl ⟨_, _, [stmt], rfl, rfl, fun f stmts => ?_⟩
    rw [h]
    refine .failed ?_ (Or.inl rfl)
    rintro rfl db hdb
    exact absurd (hno db hdb) (by simp [Answer.reaches])
  | lost h hexec =>
    refine Or.inl ⟨_, _, [stmt], rfl, rfl, fun f stmts => ?_⟩
    rw [h]
    exact .failed (by simp) (Or.inr hexec)
  | answered h hexec => exact Or.inr ⟨_, rfl, rfl, rfl, h, hexec⟩

/-- The record of a migration whose statement is the next to be sent. -/
def recordAfter (m : Migration) (link : Link D) : Statement :=
  .record m.version m.name (link.clock (link.sent.length + 1))

/-- The statement of a migration and its record. -/
theorem applyOne_sends (m : Migration) (link : Link D) :
    (∃ stop link' sent, applyOne execSql m link = (.error stop, link') ∧
      link'.sent = link.sent ++ sent ∧ ∀ stmts, Sends execSql
        (.migrate m :: recordAfter m link :: stmts) link.db link.answers sent (.error stop)
          link'.db) ∨
    ∃ link' db, applyOne execSql m link = (.ok (), link') ∧ link'.clock = link.clock ∧
      link'.sent = link.sent ++ [.migrate m, recordAfter m link] ∧
        link.answers = .answered :: .answered :: link'.answers ∧
          link.db.exec execSql (.migrate m) = .ok db ∧
            db.exec execSql (recordAfter m link) = .ok link'.db := by
  rw [applyOne]
  rcases executeSql_sends execSql (.migrate m) (link.note ("Applying " ++ m.label ++ "..."))
    with ⟨stop, link₁, sent, hrun, hsent, hsends⟩ | ⟨link₁, hrun, hclock, hsent, hanswers, hexec⟩
  · rw [hrun]
    exact Or.inl ⟨_, link₁, sent, rfl, hsent, fun stmts => hsends _ _⟩
  · rw [hrun]
    replace hsent : link₁.sent = link.sent ++ [.migrate m] := hsent
    replace hanswers : link.answers = .answered :: link₁.answers := hanswers
    have hrecord : .record m.version m.name (link₁.clock link₁.sent.length)
        = recordAfter m link := by
      rw [hsent, List.length_append, List.length_singleton, hclock]
      rfl
    dsimp only [recordOne]
    rw [hrecord, hanswers]
    rcases executeSql_sends execSql (recordAfter m link) link₁
      with ⟨stop, link₂, sent, hrun₂, hsent₂, hsends⟩ |
        ⟨link₂, hrun₂, hclock₂, hsent₂, hanswers₂, hexec₂⟩
    · rw [hrun₂]
      refine Or.inl ⟨_, link₂, .migrate m :: sent, rfl, ?_, fun stmts => .next hexec (hsends _ _)⟩
      rw [hsent₂, hsent, List.append_assoc]
      rfl
    · rw [hrun₂, hanswers₂]
      refine Or.inr ⟨_, link₁.db, rfl, hclock₂.trans hclock, ?_, rfl, hexec, hexec₂⟩
      show link₂.sent = _
      rw [hsent₂, hsent, List.append_assoc]
      rfl

/-- The loop is the plan for the pending migrations. -/
theorem applyAll_sends (applied : AppliedMap) (ms : List Migration) (link : Link D) :
    ∃ sent, (applyAll execSql applied ms link).2.sent = link.sent ++ sent ∧
      Sends execSql (plan link.clock link.sent.length (pending applied ms)) link.db link.answers
        sent (applyAll execSql applied ms link).1 (applyAll execSql applied ms link).2.db := by
  refine applyAll_rule execSql (P := fun ms link out => ∃ sent, out.2.sent = link.sent ++ sent ∧
    Sends execSql (plan link.clock link.sent.length ms) link.db link.answers sent out.1 out.2.db)
    ?_ ?_ ?_ ?_ applied ms link
  · exact fun link => ⟨[], (List.append_nil _).symm, .done⟩
  · exact fun ms link line out h => h
  · intro m ms link stop link' hrun
    rcases applyOne_sends execSql m link
      with ⟨stop', link₁, sent, hone, hsent, hsends⟩ | ⟨link₁, db, hone, -⟩
    · rw [hone] at hrun
      obtain ⟨hstop, hlink⟩ := Prod.mk.inj hrun
      rw [← hlink, ← hstop]
      exact ⟨sent, hsent, hsends _⟩
    · rw [hone] at hrun
      cases hrun
  · intro m ms link link' out hrun ih
    rcases applyOne_sends execSql m link
      with ⟨stop', link₁, sent, hone, -⟩ |
        ⟨link₁, db, hone, hclock, hsent, hanswers, hexec, hexec'⟩
    · rw [hone] at hrun
      cases hrun
    · rw [hone] at hrun
      obtain ⟨-, rfl⟩ := Prod.mk.inj hrun
      obtain ⟨sent, hout, hsends⟩ := ih
      rw [hclock, hsent, List.length_append] at hsends
      rw [hanswers]
      refine ⟨_, ?_, .next hexec (.next hexec' hsends)⟩
      rw [hout, hsent, List.append_assoc]
      rfl

/-- With three answers, the call has its list. -/
theorem runMigrations_listed (ms : List Migration) {link : Link D} {answers : List Answer}
    (h : link.answers = .answered :: .answered :: .answered :: answers) :
    runMigrations execSql ms link = applyAll execSql (listed link.db.rows) ms
      { link with
        db := { link.db with schemaVersion := some link.db.rows }
        answers, sent := link.sent ++ listing } := by
  simp [runMigrations, listApplied, queryJson, executeSql, Database.exec, Database.rows, h,
    listing, listed]

end Loop

/-! ## Whole calls -/

/-- The list has exactly the versions that have a row. -/
def ListsFaithfully {D : Type} (db : Database D) : Prop :=
  ∀ version, (listed db.rows).contains version = true ↔ db.Recorded version

/-- A row without a version would be listed as version 0. -/
theorem listsFaithfully_iff {D : Type} {db : Database D} :
    ListsFaithfully db ↔ ((∃ row ∈ db.rows, row.version = none) → db.Recorded 0) := by
  constructor
  · rintro h ⟨row, hrow, hnone⟩
    exact (h 0).mp ((contains_listed _ _).mpr ⟨row, hrow, by rw [hnone]; rfl⟩)
  · intro h version
    rw [contains_listed]
    constructor
    · rintro ⟨row, hrow, rfl⟩
      cases hversion : row.version with
      | some v => exact ⟨row, hrow, hversion⟩
      | none => exact h ⟨row, hrow, hversion⟩
    · rintro ⟨row, hrow, hversion⟩
      exact ⟨row, hrow, by rw [hversion]; rfl⟩

theorem pending_of_listsFaithfully {D : Type} {db : Database D} (h : ListsFaithfully db)
    (ms : List Migration) : pending (listed db.rows) ms = db.unrecorded ms := by
  refine List.filter_congr fun m _ => ?_
  have hiff := h m.version
  cases hlisted : (listed db.rows).contains m.version <;> simp_all

/-- A call that gets its list sends the plan, up to the first request that fails. If it succeeds,
every migration has a row, and a further call that gets its list executes none. -/
structure PrefixExact {D : Type} (execSql : String → D → Except String D) (ms : List Migration)
    (db : Database D) (c : Call) : Prop where
  sends : ∃ sent, (call execSql ms db c).2.sent = listing ++ sent ∧
    Sends execSql (plan c.clock listing.length (db.unrecorded ms))
      { db with schemaVersion := some db.rows } (c.answers.drop listing.length) sent
      (call execSql ms db c).1 (callStep execSql ms db c)
  inOrder : executed (call execSql ms db c).2.sent <+: db.unrecorded ms
  recorded : (call execSql ms db c).1 = .ok () →
    ∀ m ∈ ms, (callStep execSql ms db c).Recorded m.version
  idempotent : (call execSql ms db c).1 = .ok () → ∀ c' : Call, c'.listFails = false →
    executed (call execSql ms (callStep execSql ms db c) c').2.sent = []

theorem mem_executed {m : Migration} {stmts : List Statement} :
    m ∈ executed stmts ↔ .migrate m ∈ stmts := by
  rw [executed, List.mem_filterMap]
  constructor
  · rintro ⟨stmt, hmem, heq⟩
    cases stmt with
    | migrate m' => exact Option.some.inj heq ▸ hmem
    | createSchemaVersion | selectApplied | record _ _ _ => simp at heq
  · intro h
    exact ⟨.migrate m, h, rfl⟩

variable {D : Type} (execSql : String → D → Except String D) {ms : List Migration}
  {db : Database D} {c : Call}

/-- A call that gets its list has nothing to do once every migration has a row. -/
theorem executed_call_eq_nil (hrecorded : ∀ m ∈ ms, db.Recorded m.version)
    (hlist : c.listFails = false) : executed (call execSql ms db c).2.sent = [] := by
  rw [List.eq_nil_iff_forall_not_mem]
  intro m hm
  rw [mem_executed] at hm
  have hcalled := runMigrations_called execSql ms { db, answers := c.answers, clock := c.clock }
  unfold call at hm
  generalize runMigrations execSql ms _ = out at hcalled hm
  cases hcalled with
  | stopped hasked _ => exact absurd (hasked.sent m hm) (by simp)
  | listed hasked _ _ =>
    rcases mem_sent_applyAll hm with hbefore | hpending
    · exact absurd (hasked.sent m hbefore) (by simp)
    · obtain ⟨hmem, hunlisted⟩ := List.mem_filter.mp hpending
      obtain ⟨row, hrow, hversion⟩ := hrecorded m hmem
      have hlisted : (listed db.rows).contains m.version = true :=
        (contains_listed _ _).mpr ⟨row, hrow, by rw [hversion]; rfl⟩
      rw [hlisted] at hunlisted
      exact absurd hunlisted (by simp)
  | unlisted _ _ hne hanswers =>
    rw [Call.listFails_of hne hanswers] at hlist
    cases hlist

/-- **A call is prefix-exact and idempotent**: for every list of migrations, every database whose
rows are listed as they are, and whatever the requests of the loop get. -/
theorem runMigrations_prefixExact (ms : List Migration) (db : Database D)
    (hfaithful : ListsFaithfully db) (c : Call) (answers : List Answer)
    (hlist : c.answers = .answered :: .answered :: .answered :: answers) :
    PrefixExact execSql ms db c := by
  have hrun : call execSql ms db c = applyAll execSql (listed db.rows) ms
      { db := { db with schemaVersion := some db.rows }, answers, clock := c.clock,
        sent := listing } := runMigrations_listed execSql ms hlist
  obtain ⟨sent, hsent, hsends⟩ := applyAll_sends execSql (listed db.rows) ms
    { db := { db with schemaVersion := some db.rows }, answers, clock := c.clock, sent := listing }
  rw [pending_of_listsFaithfully hfaithful] at hsends
  rw [← hrun] at hsent hsends
  -- the table is there, and its rows are what they were
  have hrecorded : (call execSql ms db c).1 = .ok () →
      ∀ m ∈ ms, (callStep execSql ms db c).Recorded m.version := by
    intro hok m hm
    rw [hok] at hsends
    by_cases hrow : db.Recorded m.version
    · exact hsends.recorded_of_recorded hrow
    · exact hsends.recorded_of_ok m (List.mem_filter.mpr ⟨hm, by simpa using hrow⟩)
  refine ⟨⟨sent, hsent, ?_⟩, ?_, hrecorded, fun hok c' hc' => ?_⟩
  · rw [hlist]
    exact hsends
  · have hexecuted : executed (listing ++ sent) = executed sent := rfl
    rw [hsent, hexecuted, ← executed_plan c.clock listing.length (db.unrecorded ms)]
    exact hsends.isPrefix.filterMap _
  · exact executed_call_eq_nil execSql (hrecorded hok) hc'

/-- The first migration has no row and the second one has. -/
def gapDatabase : Database Unit where
  schemaVersion := some [{ version := some 2, name := some "b", appliedOn := some "" }]
  tables := ()

/-- The request that records the third migration fails. -/
theorem runMigrations_prefixExact_gap :
    PrefixExact acceptSql
      [{ version := 1, name := "a", sql := "A" }, { version := 2, name := "b", sql := "B" },
        { version := 3, name := "c", sql := "C" }] gapDatabase
      { answers := List.replicate 6 .answered ++ [.unreached "timeout"] } :=
  runMigrations_prefixExact acceptSql _ gapDatabase
    (listsFaithfully_iff.mpr (by rintro ⟨row, hrow, hnone⟩; simp_all [gapDatabase, Database.rows]))
    _ [.answered, .answered, .answered, .unreached "timeout"] rfl

end Migrate
end Cryptomeria
