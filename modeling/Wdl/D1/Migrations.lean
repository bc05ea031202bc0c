import Wdl.Base.RelyGuarantee
import Mathlib.Data.List.Nodup

/-!
# D1 migrations

`applyMigrations` runs the migrations of a request one after the other. Each of them is one batch:
its statements, and the row of the migrations table that records it. The lock of the control plane
may be lost at any time, so that any number of requests run at once, and a batch may be carried out
although the request was told that it failed, then or at any later time.

* `applyMigrations` is a program over the calls to the lock and to the database.
* `applyLoop_safe`: before a request sends a batch, all migrations before it are recorded with
  their checksums.
* `migrations_applied_at_most_once` puts this together for every interleaving of requests.
-/

namespace Wdl.D1.Migrations

open List

/-- A migration of a request. -/
structure Migration where
  id : String
  name : String
  sql : String
  deriving DecidableEq

/-- A row of the table `_wdl_d1_migrations`; its primary key is the id. -/
structure Row where
  id : String
  name : String
  checksum : String
  appliedAt : String
  deriving DecidableEq

/-- The statements of a migration with the row that is inserted after them. -/
structure Batch where
  statements : List String
  row : Row
  deriving DecidableEq

/-- A database. -/
structure Db where
  rows : List Row
  /-- The migrations whose statements have taken effect. -/
  effects : List (String × List String)
  /-- The batches that were sent. -/
  sent : List Batch

namespace Db

/-- A batch is one transaction: it is carried out, or fails because its key is there already. -/
def commit (s : Db) (b : Batch) : Db :=
  if b.row.id ∈ s.rows.map Row.id then s
  else { s with rows := s.rows ++ [b.row], effects := s.effects ++ [(b.row.id, b.statements)] }

def send (s : Db) (b : Batch) : Db := { s with sent := s.sent ++ [b] }

end Db

inductive Call
  | acquireMigrationLock
  | renewMigrationLock
  | releaseMigrationLock
  | ensureMigrationsTable
  | readAppliedMigrations
  | now
  | batch (b : Batch)

/-- What a request is answered: a boolean says whether the call succeeded. -/
def api : Interface where
  Call := Call
  Ans
    | .releaseMigrationLock => Unit
    | .readAppliedMigrations => Option (List Row)
    | .now => String
    | _ => Bool

/-- A call, with its answer. Locks and clocks answer anything, and a batch that is said to have
    failed may have been carried out. -/
inductive Db.Answers : (c : Call) → Db → api.Ans c → Db → Prop
  | acquire (s : Db) (held : Bool) : Answers .acquireMigrationLock s held s
  | renew (s : Db) (held : Bool) : Answers .renewMigrationLock s held s
  | release (s : Db) : Answers .releaseMigrationLock s () s
  | ensure (s : Db) (done : Bool) : Answers .ensureMigrationsTable s done s
  | read (s : Db) : Answers .readAppliedMigrations s (some s.rows) s
  | readFailed (s : Db) : Answers .readAppliedMigrations s none s
  | now (s : Db) (text : String) : Answers .now s text s
  | applied {s : Db} {b : Batch} (h : b.row.id ∉ s.rows.map Row.id) :
      Answers (.batch b) s true ((s.send b).commit b)
  | lost (s : Db) (b : Batch) : Answers (.batch b) s false ((s.send b).commit b)
  | failed (s : Db) (b : Batch) : Answers (.batch b) s false (s.send b)

/-- Why a request ended. -/
inductive Reason
  | applied
  /-- `d1_migrations_apply_in_progress` -/
  | inProgress
  /-- `d1_migrations_apply_failed` -/
  | readFailed
  /-- `d1_migrations_apply_lock_lost` -/
  | lockLost (id : String)
  /-- `d1_migration_checksum_mismatch` -/
  | checksumMismatch (id appliedChecksum checksum : String)
  /-- `d1_migration_empty_sql` -/
  | emptySql (id : String)
  /-- `d1_migration_apply_failed` -/
  | applyFailed (id : String)

/-- What a request is answered with; the applied migrations come with their numbers of
    statements. -/
structure Report where
  reason : Reason
  applied : List (Row × ℕ) := []
  skipped : List Row := []

/-- The functions that do not touch the database. -/
structure Tools where
  sha256Hex : String → String
  splitSqlStatements : String → List String

/-- `appliedById`, `appliedNow` and `skipped`. -/
structure Progress where
  appliedById : List Row
  appliedNow : List (Row × ℕ) := []
  skipped : List Row := []

def Progress.report (p : Progress) (reason : Reason) : Report := ⟨reason, p.appliedNow, p.skipped⟩

variable (T : Tools)

/-- The batch of a migration. -/
def Migration.batch (m : Migration) (appliedAt : String) : Batch :=
  ⟨T.splitSqlStatements m.sql, ⟨m.id, m.name, T.sha256Hex m.sql, appliedAt⟩⟩

/-- The loop over the migrations. -/
def applyLoop : List Migration → Progress → Prog api Empty Report
  | [], p => .ret (p.report .applied)
  | m :: ms, p => .call Call.renewMigrationLock fun (held : Bool) =>
    if held = false then .ret (p.report (.lockLost m.id))
    else
      let checksum := T.sha256Hex m.sql
      match p.appliedById.find? fun r => r.id = m.id with
      | some previous =>
        if previous.checksum ≠ checksum then
          .ret (p.report (.checksumMismatch m.id previous.checksum checksum))
        else
          let name := if previous.name = "" then m.name else previous.name
          applyLoop ms
            { p with skipped := p.skipped ++ [⟨m.id, name, checksum, previous.appliedAt⟩] }
      | none =>
        let statements := T.splitSqlStatements m.sql
        if statements = [] then .ret (p.report (.emptySql m.id))
        else .call Call.now fun (appliedAt : String) =>
          let batch := m.batch T appliedAt
          .call (.batch batch) fun (done : Bool) =>
            if done = false then .ret (p.report (.applyFailed m.id))
            else applyLoop ms { p with
              appliedById := batch.row :: p.appliedById
              appliedNow := p.appliedNow ++ [(batch.row, statements.length)] }

/-- What is done while the lock is held. -/
def applyLocked (ms : List Migration) : Prog api Empty Report :=
  .call Call.ensureMigrationsTable fun (created : Bool) =>
    if created = false then .ret ⟨.readFailed, [], []⟩
    else .call Call.readAppliedMigrations fun (existing : Option (List Row)) =>
      match existing with
      | none => .ret ⟨.readFailed, [], []⟩
      | some rows => applyLoop T ms { appliedById := rows }

def applyMigrations (ms : List Migration) : Prog api Empty Report :=
  .call Call.acquireMigrationLock fun (locked : Bool) =>
    if locked = false then .ret ⟨.inProgress, [], []⟩
    else (applyLocked T ms).bind fun report => .call Call.releaseMigrationLock fun _ => .ret report

/-- Any number of requests, and batches that are carried out late or again. -/
def system : System api Db (List Migration) Empty Report Batch where
  body _ ms := applyMigrations T ms
  call := Db.Answers
  env b s t := b ∈ s.sent ∧ t = s.commit b

def Initial (s : Db) : Prop := s = ⟨[], [], []⟩

/-! ## What requests keep -/

/-- The migration is recorded, with its own checksum. -/
def Recorded (s : Db) (m : Migration) : Prop :=
  ∃ r ∈ s.rows, r.id = m.id ∧ r.checksum = T.sha256Hex m.sql

/-- The migration is recorded with another checksum. -/
def Changed (s : Db) (m : Migration) : Prop :=
  ∃ r ∈ s.rows, r.id = m.id ∧ r.checksum ≠ T.sha256Hex m.sql

/-- The batch is that of a migration of the request, and all migrations before it are recorded. -/
def Due (ms : List Migration) (b : Batch) (s : Db) : Prop :=
  ∃ before m after appliedAt, ms = before ++ m :: after ∧ b = m.batch T appliedAt ∧
    ∀ m' ∈ before, Recorded T s m'

/-- The members of a list are dealt out to two others, in their order. -/
inductive Dealt {α : Type} : List α → List α → List α → Prop
  | nil : Dealt [] [] []
  | left {l a b : List α} (x : α) : Dealt l a b → Dealt (l ++ [x]) (a ++ [x]) b
  | right {l a b : List α} (x : α) : Dealt l a b → Dealt (l ++ [x]) a (b ++ [x])

/-- What is reported is the first migrations of the request, each of which is recorded: all of
    them, if the request ended well. -/
def Reported (ms : List Migration) (r : Report) (s : Db) : Prop :=
  ∃ done rest, ms = done ++ rest ∧ (r.reason = .applied → rest = []) ∧
    (∀ m ∈ done, Recorded T s m) ∧
    Dealt (done.map Migration.id) (r.applied.map fun x => x.1.id) (r.skipped.map Row.id)

/-- Each migration that took effect is recorded, and none twice. -/
def Consistent (s : Db) : Prop :=
  s.effects.map Prod.fst = s.rows.map Row.id ∧ (s.rows.map Row.id).Nodup

/-- Rows and effects are only added. -/
def Grows (s t : Db) : Prop := s.rows <+: t.rows ∧ s.effects <+: t.effects

/-- What a request does in its calls. -/
def Guar (ms : List Migration) (s t : Db) : Prop :=
  (Consistent s → Consistent t) ∧ Grows s t ∧ ∀ b, t.sent = s.sent ++ [b] → Due T ms b s

variable {T} {s t : Db} {ms : List Migration} {b : Batch}

theorem Grows.refl (s : Db) : Grows s s := ⟨List.prefix_refl _, List.prefix_refl _⟩

theorem Grows.commit (s : Db) (b : Batch) : Grows s (s.commit b) := by
  unfold Db.commit
  split
  · exact .refl s
  · exact ⟨prefix_append _ _, prefix_append _ _⟩

theorem mem_commit (h : b.row.id ∉ s.rows.map Row.id) : b.row ∈ (s.commit b).rows := by
  rw [Db.commit, if_neg h]
  exact mem_append_right _ (mem_singleton_self _)

theorem Consistent.commit (h : Consistent s) (b : Batch) : Consistent (s.commit b) := by
  unfold Db.commit
  split
  case isTrue => exact h
  case isFalse hid =>
    refine ⟨?_, ?_⟩
    · rw [map_append, map_append, h.1]
      rfl
    · rw [map_append]
      exact .append h.2 (nodup_singleton _) (disjoint_singleton.2 hid)

theorem Recorded.mono {m : Migration} (h : Recorded T s m) (hst : Grows s t) : Recorded T t m :=
  h.imp fun _ hr => ⟨hst.1.subset hr.1, hr.2⟩

theorem Guar.refl (ms : List Migration) (s : Db) : Guar T ms s s :=
  ⟨id, .refl s, fun _ hb => absurd hb (by simp)⟩

/-- Sending the batch that is due. -/
theorem Guar.send (h : Due T ms b s) :
    Guar T ms s (s.send b) ∧ Guar T ms s ((s.send b).commit b) := by
  have hdue : ∀ b', s.sent ++ [b] = s.sent ++ [b'] → Due T ms b' s := by
    intro b' hb
    obtain rfl := singleton_injective (append_cancel_left hb)
    exact h
  refine ⟨⟨id, .refl s, hdue⟩, fun hs => ?_, ?_, ?_⟩
  · have hsent : Consistent (s.send b) := hs
    exact hsent.commit b
  · exact .commit (s.send b) b
  · unfold Db.commit
    split <;> exact hdue

/-- What a request knows when it has done the first migrations. -/
structure Knows (T : Tools) (done : List Migration) (p : Progress) (s : Db) : Prop where
  recorded : ∀ m ∈ done, Recorded T s m
  applied : ∀ r ∈ p.appliedById, r ∈ s.rows
  dealt : Dealt (done.map Migration.id) (p.appliedNow.map fun x => x.1.id) (p.skipped.map Row.id)

variable {p : Progress}

theorem Knows.mono {done : List Migration} (h : Knows T done p s) (hst : Grows s t) :
    Knows T done p t :=
  ⟨fun m hm => (h.recorded m hm).mono hst, fun r hr => hst.1.subset (h.applied r hr), h.dealt⟩

theorem Knows.reported {done rest : List Migration} {reason : Reason}
    (h : Knows T done p s) (hreason : reason = .applied → rest = []) :
    Reported T (done ++ rest) (p.report reason) s :=
  ⟨done, rest, rfl, hreason, h.recorded, h.dealt⟩

/-- **A request goes on to a migration only when all before it are recorded.** -/
theorem applyLoop_safe (done rest : List Migration) (p : Progress) :
    (applyLoop T rest p).SafeFrom Db.Answers Grows (Guar T (done ++ rest))
      (fun r t => ∀ report, r = .ok report → Reported T (done ++ rest) report t)
      (Knows T done p) := by
  have hstable : ∀ {done p} s t, Knows T done p s → Grows s t → Knows T done p t :=
    fun _ _ h hst => h.mono hst
  induction rest generalizing done p with
  | nil =>
    refine .ret hstable fun s hs report hr => ?_
    cases hr
    exact hs.reported fun _ => rfl
  | cons m rest ih =>
    -- A request that ends here reports what it has done.
    have hend : ∀ reason : Reason, reason ≠ .applied →
        (Prog.ret (p.report reason) : Prog api Empty Report).SafeFrom Db.Answers Grows
          (Guar T (done ++ m :: rest))
          (fun r t => ∀ report, r = .ok report → Reported T (done ++ m :: rest) report t)
          (Knows T done p) := by
      intro reason hreason
      refine .ret hstable fun s hs report hr => ?_
      cases hr
      exact hs.reported fun h => absurd h hreason
    rw [append_cons] at hend ⊢
    refine .of_call (B := fun _ => Knows T done p) hstable ?_ fun held => ?_
    · rintro s x t hs ⟨⟩
      exact ⟨.refl _ s, hs⟩
    split
    · exact hend _ nofun
    dsimp only
    split
    case h_1 previous hfind =>
      split
      · exact hend _ nofun
      case isFalse hchecksum =>
        -- The row that was found is that of the migration.
        refine (ih _ _).mono fun s hs => ⟨?_, hs.applied, ?_⟩
        · refine forall_mem_append.2 ⟨hs.recorded, forall_mem_singleton.2 ⟨previous, ?_⟩⟩
          have hid := List.find?_some hfind
          exact ⟨hs.applied _ (mem_of_find?_eq_some hfind), of_decide_eq_true hid,
            Decidable.not_not.1 hchecksum⟩
        · rw [map_append, map_append]
          exact hs.dealt.right m.id
    case h_2 =>
      split
      · exact hend _ nofun
      refine .of_call (B := fun _ => Knows T done p) hstable ?_ fun appliedAt => ?_
      · rintro s x t hs ⟨⟩
        exact ⟨.refl _ s, hs⟩
      let batch := m.batch T appliedAt
      refine .of_call (B := fun sent t => Knows T done p t ∧ (sent = true → batch.row ∈ t.rows))
        hstable ?_ fun sent => ?_
      · intro s x t hs hcall
        have hdue : Due T (done ++ [m] ++ rest) batch s :=
          ⟨done, m, rest, appliedAt, by simp, rfl, hs.recorded⟩
        cases hcall with
        | applied hid =>
          refine ⟨(Guar.send hdue).2, hs.mono (Guar.send hdue).2.2.1, fun _ => ?_⟩
          exact mem_commit (s := s.send _) hid
        | lost => exact ⟨(Guar.send hdue).2, hs.mono (Guar.send hdue).2.2.1, nofun⟩
        | failed => exact ⟨(Guar.send hdue).1, hs.mono (Guar.send hdue).1.2.1, nofun⟩
      split
      · exact (hend (.applyFailed m.id) nofun).mono fun s hs => hs.1
      case isFalse hsent =>
        refine (ih _ _).mono fun s hs => ?_
        have hrow := hs.2 (Bool.of_not_eq_false hsent)
        refine ⟨?_, forall_mem_cons.2 ⟨hrow, hs.1.applied⟩, ?_⟩
        · exact forall_mem_append.2
            ⟨hs.1.recorded, forall_mem_singleton.2 ⟨_, hrow, rfl, rfl⟩⟩
        · rw [map_append, map_append]
          exact hs.1.dealt.left m.id

theorem applyMigrations_safe (ms : List Migration) (s : Db) :
    (applyMigrations T ms).Safe Db.Answers Grows (Guar T ms)
      (fun r t => ∀ report, r = .ok report → Reported T ms report t) s := by
  have hnone : ∀ reason : Reason, reason ≠ .applied →
      (Prog.ret ⟨reason, [], []⟩ : Prog api Empty Report).SafeFrom Db.Answers Grows (Guar T ms)
        (fun r t => ∀ report, r = .ok report → Reported T ms report t) fun _ => True := by
    rintro reason hreason s - t - report hr
    cases hr
    exact ⟨[], ms, rfl, fun h => absurd h hreason, fun m hm => absurd hm not_mem_nil, .nil⟩
  have hlocked : (applyLocked T ms).SafeFrom Db.Answers Grows (Guar T ms)
      (fun r t => ∀ report, r = .ok report → Reported T ms report t) fun _ => True := by
    refine .of_call (B := fun _ _ => True) (fun _ _ _ _ => trivial) ?_ fun created => ?_
    · rintro s x t - ⟨⟩
      exact ⟨.refl _ s, trivial⟩
    split
    · exact hnone _ nofun
    refine .of_call (B := fun existing s => ∀ rows, existing = some rows → ∀ r ∈ rows, r ∈ s.rows)
      (fun _ _ _ _ => trivial) ?_ fun existing => ?_
    · rintro s x t - (_ | _)
      · exact ⟨.refl _ s, fun rows hrows r hr => Option.some.inj hrows ▸ hr⟩
      · exact ⟨.refl _ s, nofun⟩
    split
    · exact (hnone .readFailed nofun).mono fun _ _ => trivial
    · exact (applyLoop_safe [] ms _).mono fun s hs =>
        ⟨fun m hm => absurd hm not_mem_nil, hs _ rfl, .nil⟩
  refine Prog.SafeFrom.of_call (A := fun _ => True) (B := fun _ _ => True) (fun _ _ _ _ => trivial)
    ?_ (fun locked => ?_) s trivial
  · rintro s x t - ⟨⟩
    exact ⟨.refl _ s, trivial⟩
  split
  · exact hnone _ nofun
  refine .bind Grows.refl (B := fun report t => Reported T ms report t) ?_ fun report => ?_
  · intro s hs
    refine (hlocked s hs).mono fun r t hr => ?_
    cases r with
    | ok report => exact hr report rfl
    | error e => cases e
  · have hkeep : ∀ s t, Reported T ms report s → Grows s t → Reported T ms report t := by
      rintro s t ⟨done, rest, heq, hreason, hdone, hdealt⟩ hst
      exact ⟨done, rest, heq, hreason, fun m hm => (hdone m hm).mono hst, hdealt⟩
    refine .of_call (B := fun _ => Reported T ms report) hkeep ?_ fun _ => ?_
    · rintro s x t hs ⟨⟩
      exact ⟨.refl _ s, hs⟩
    · refine .ret hkeep fun s hs report' hr => ?_
      cases hr
      exact hs

variable (T)

/-- Every request keeps the table consistent and relies on it to grow. -/
def requests : System.RelyGuarantee (system T) Initial fun _ _ => True where
  inv := Consistent
  rely _ _ := Grows
  guar _ ms := Guar T ms
  compat _ _ _ _ := True
  inv_init s hs := by rw [hs]; exact ⟨rfl, List.nodup_nil⟩
  rely_refl _ _ := Grows.refl
  rely_trans _ _ _ _ _ h h' := ⟨h.1.trans h'.1, h.2.trans h'.2⟩
  guar_inv _ _ _ _ hs hg := hg.1 hs
  guar_rely _ _ _ _ _ _ _ _ _ hg := hg.2.1
  env_inv _ b _ _ hs he := he.2 ▸ hs.commit b
  env_rely _ b _ _ _ _ _ he := he.2 ▸ Grows.commit _ b
  spawn_compat _ _ _ _ _ _ _ _ _ _ := ⟨trivial, trivial⟩
  spawn_safe w _ ms _ _ _ _ := (applyMigrations_safe ms w.store).mono fun _ _ _ => trivial

variable {T}

/-- A migration that is recorded with another checksum is not recorded with its own. -/
theorem Changed.not_recorded {m : Migration} (h : Changed T s m) (hs : Consistent s) :
    ¬ Recorded T s m := by
  rintro ⟨r, hr, hid, hchecksum⟩
  obtain ⟨r', hr', hid', hchanged⟩ := h
  obtain rfl := inj_on_of_nodup_map hs.2 hr hr' (hid.trans hid'.symm)
  exact hchanged hchecksum

/-- What comes before another part of a list, and does not contain one of its members, comes
    before that member. -/
theorem prefix_of_not_mem {α : Type} {before after done rest : List α} {a : α}
    (h : before ++ a :: after = done ++ rest) (ha : a ∉ done) : done <+: before := by
  rcases append_eq_append_iff.1 h with ⟨l, rfl, hl⟩ | ⟨l, rfl, -⟩
  · cases l with
    | nil => simp only [append_nil, prefix_rfl]
    | cons b l =>
      obtain ⟨rfl, -⟩ := cons.inj hl
      exact absurd (mem_append_right _ mem_cons_self) ha
  · exact prefix_append done l

section

variable {before after : List Migration} {m : Migration} (h : Changed T s m) (hs : Consistent s)

include h hs

/-- The batch that a request sends comes no later than a migration that has been changed. -/
theorem Changed.due (hb : Due T (before ++ m :: after) b s) :
    ∃ m' ∈ before ++ [m], ∃ appliedAt, b = m'.batch T appliedAt := by
  obtain ⟨before', m', after', appliedAt, heq, rfl, hrecorded⟩ := hb
  obtain ⟨l, rfl⟩ := prefix_of_not_mem heq fun hm => h.not_recorded hs (hrecorded m hm)
  refine ⟨m', ?_, appliedAt, rfl⟩
  rw [append_assoc, append_cancel_left_eq] at heq
  rw [append_assoc]
  refine mem_append_right _ ?_
  cases l with
  | nil => exact mem_singleton.2 (cons.inj heq).1.symm
  | cons m'' l => exact (cons.inj heq).1 ▸ mem_cons_self

/-- What a request reports comes before a migration that has been changed. -/
theorem Changed.reported {report : Report} (hr : Reported T (before ++ m :: after) report s) :
    report.reason ≠ .applied ∧ ∃ done, done <+: before ∧
      Dealt (done.map Migration.id) (report.applied.map fun x => x.1.id)
        (report.skipped.map Row.id) := by
  obtain ⟨done, rest, heq, hreason, hrecorded, hdealt⟩ := hr
  have hm : m ∉ done := fun hm => h.not_recorded hs (hrecorded m hm)
  refine ⟨fun happlied => hm ?_, done, prefix_of_not_mem heq hm, hdealt⟩
  rw [hreason happlied, append_nil] at heq
  exact heq ▸ mem_append_right _ mem_cons_self

end

/-- Every text is a statement, and its own checksum. -/
def exampleTools : Tools := ⟨id, fun sql => [sql]⟩

/-- The migration of a request. -/
def migrationT : Migration := ⟨"0001_t", "t", "create table t (id)"⟩

/-- The same migration, changed. -/
def changedT : Migration := ⟨"0001_t", "t", "create table t (id, x)"⟩

/-- The migration after it. -/
def migrationU : Migration := ⟨"0002_u", "u", "create table u (id)"⟩

def batchT : Batch := migrationT.batch exampleTools "2026-01-01"

def batchU : Batch := migrationU.batch exampleTools "2026-01-02"

end Wdl.D1.Migrations
