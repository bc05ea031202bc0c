import Wdl.D1.Errors

/-!
# The actor of a D1 database

The actor runs the statements of a query. Up to the check that its task still owns the database it
waits for others; from then on it does not, so the statements run without anything in between. The
lease of the owner has a budget, which is checked before each statement is run. Statements of a
batch, and more than one statement of `exec`, run in a transaction.

Everything that the actor does not decide itself (the clock, and how each call of the database
ends) is part of its `Surroundings`. What is kept of the database is which statements have been
run on it (`SqlState.applied`), whether or not they have failed.
-/

namespace Wdl.D1

structure Statement where
  sql : String
  params : List String
  deriving DecidableEq, Repr

inductive Mode
  | all
  | raw
  | run
  | exec
  | batch
  deriving DecidableEq, Repr

/-- What is seen of the results of a statement: what its columns and its rows count, and whether
    going through the rows fails after them. -/
structure Cursor where
  columns : ℕ
  rows : List ℕ
  failure : Option (String × String)
  rowsWritten : ℕ
  deriving DecidableEq, Repr

/-- What surrounds the actor while it runs statements, by the number of times it was asked. -/
structure Surroundings where
  /-- The clock. -/
  now : ℕ → ℕ
  /-- How a call of the database ends: with an error, by its name and message, or with a cursor. -/
  exec : ℕ → Except (String × String) Cursor
  /-- The object is known to exist. -/
  memo : ℕ → Bool
  /-- The statement creates an object unless it exists. -/
  idempotentDdl : Statement → Bool
  maxResultRows : ℕ
  maxResultBytes : ℕ

/-- The state of the actor while it runs statements. -/
structure SqlState where
  /-- The statements that have been run. -/
  applied : List Statement
  /-- How often the surroundings were asked. -/
  asked : ℕ
  /-- What is left of the budget for results. -/
  remaining : ℕ
  deriving DecidableEq, Repr

/-- A part of the actor that runs without waiting. -/
abbrev Sql (α : Type) := SqlState → Except Thrown α × SqlState

namespace Sql

variable {α β : Type}

def ret (a : α) : Sql α := fun s => (.ok a, s)

def throw (e : Thrown) : Sql α := fun s => (.error e, s)

def bind (p : Sql α) (f : α → Sql β) : Sql β := fun s =>
  match p s with
  | (.ok a, t) => f a t
  | (.error e, t) => (.error e, t)

/-- Run for each member of a list. -/
def forEach (l : List β) (f : β → Sql Unit) : Sql Unit :=
  match l with
  | [] => ret ()
  | b :: l => (f b).bind fun _ => forEach l f

/-- What is thrown is replaced. -/
def mapError (p : Sql α) (f : Thrown → Thrown) : Sql α := fun s =>
  match p s with
  | (.ok a, t) => (.ok a, t)
  | (.error e, t) => (.error (f e), t)

/-- A transaction: when it throws, what it has run is undone. -/
def transactionSync (p : Sql α) : Sql α := fun s =>
  match p s with
  | (.ok a, t) => (.ok a, t)
  | (.error e, t) => (.error e, { t with applied := s.applied })

end Sql

section Actor

variable (w : Surroundings)

/-- Ask the surroundings. -/
def ask {α : Type} (f : ℕ → α) : Sql α :=
  fun s => (.ok (f s.asked), { s with asked := s.asked + 1 })

def leaseBudgetError : Thrown := .protocol
  { status := 503, code := .leaseBudgetExhausted,
    message := "D1 database owner lease budget was exhausted during local SQL dispatch" }

def assertLeaseBudget (guard : Option ℕ) : Sql Unit :=
  match guard with
  | none => .ret ()
  | some deadlineMs => (ask w.now).bind fun now =>
    if now < deadlineMs then .ret () else .throw leaseBudgetError

/-- A call of the database. -/
def sqlExec : Sql Cursor := (ask w.exec).bind fun
  | .ok cursor => .ret cursor
  | .error e => .throw (.error e.1 e.2)

/-- Run a statement of the query. -/
def checkedSqlExec (statement : Statement) (guard : Option ℕ) : Sql Cursor :=
  (assertLeaseBudget w guard).bind fun _ s =>
    sqlExec w { s with applied := s.applied ++ [statement] }

/-- All rows of a cursor. -/
def Cursor.toArray (cursor : Cursor) : Sql (List ℕ) :=
  match cursor.failure with
  | none => .ret cursor.rows
  | some e => .throw (.error e.1 e.2)

def schemaObjectExists (guard : Option ℕ) : Sql Bool :=
  (ask w.memo).bind fun known =>
    if known then .ret true
    else (assertLeaseBudget w guard).bind fun _ => (sqlExec w).bind fun cursor =>
      cursor.toArray.bind fun rows => .ret (decide (rows ≠ []))

def resultBytesError (limit : ℕ) : Thrown := .protocol
  { status := 413, code := .limitExceeded,
    message := "D1 limit exceeded: maximum result bytes per request is " ++ toString limit }

def resultRowsError (limit : ℕ) : Thrown := .protocol
  { status := 413, code := .limitExceeded,
    message := "D1 limit exceeded: maximum result rows per statement is " ++ toString limit }

def consumeResultBudget (bytes : ℕ) : Sql Unit := fun s =>
  if s.remaining < bytes then (.error (resultBytesError w.maxResultBytes), s)
  else (.ok (), { s with remaining := s.remaining - bytes })

/-- Go through the rows, of which `count` have been read. -/
def readRows : List ℕ → ℕ → Sql Unit
  | [], _ => .ret ()
  | row :: rows, count =>
    if w.maxResultRows ≤ count then .throw (resultRowsError w.maxResultRows)
    else (consumeResultBudget w row).bind fun _ => readRows rows (count + 1)

def resultFromCursor (cursor : Cursor) (mode : Mode) : Sql Unit :=
  if mode = .run then .ret ()
  else (consumeResultBudget w cursor.columns).bind fun _ => (readRows w cursor.rows 0).bind fun _ =>
    match cursor.failure with
    | none => .ret ()
    | some e => .throw (.error e.1 e.2)

/-- Whether the statement has changed the database. The object that it may have created is looked
    for, without a check of the budget. -/
def statementChangedDb (changes : ℕ) (existedBefore : Option Bool) : Sql Unit :=
  if changes ≠ 0 then .ret ()
  else
    match existedBefore with
    | some false => (schemaObjectExists w none).bind fun _ => .ret ()
    | _ => .ret ()

/-- Look for the object that the statement creates, if it is such a statement. -/
def existedBefore (statement : Statement) (guard : Option ℕ) : Sql (Option Bool) :=
  if w.idempotentDdl statement then
    (schemaObjectExists w guard).bind fun exists_ => .ret (some exists_)
  else .ret none

def runStatement (statement : Statement) (mode : Mode) (guard : Option ℕ) : Sql Unit :=
  (existedBefore w statement guard).bind fun existed =>
  (checkedSqlExec w statement guard).bind fun cursor =>
  (resultFromCursor w cursor mode).bind fun _ =>
  -- the last inserted row is asked for
  (if 0 < cursor.rowsWritten then (sqlExec w).bind fun rowid => rowid.toArray.bind fun _ => .ret ()
    else .ret ()).bind fun _ =>
  statementChangedDb w cursor.rowsWritten existed

def execStatements (statements : List Statement) (guard : Option ℕ) : Sql Unit :=
  .forEach statements fun statement =>
    (existedBefore w statement guard).bind fun existed =>
    (checkedSqlExec w statement guard).bind fun _ =>
    statementChangedDb w 0 existed

def execStatementsTransactionally (statements : List Statement) (guard : Option ℕ) : Sql Unit :=
  if statements.length ≤ 1 then execStatements w statements guard
  else .transactionSync (execStatements w statements guard)

/-- What is thrown by the statement `i` of a batch. -/
def batchStatementError (i : ℕ) (err : Thrown) : Thrown :=
  let wrapped : Thrown :=
    let classified := classifyD1Error err
    .protocol
      { status := classified.status, code := .batchStatementError,
        message := "D1 batch statement " ++ toString i ++ " failed: " ++ classified.message,
        statementIndex := some i, causeCode := some classified.code,
        category := some classified.category, retryable := classified.retryable }
  match err with
  | .protocol e => if e.code = .limitExceeded ∨ e.code = .leaseBudgetExhausted then err else wrapped
  | .error _ _ => wrapped

def runBatch (statements : List Statement) (guard : Option ℕ) : Sql Unit :=
  .transactionSync (.forEach statements.zipIdx fun x =>
    .mapError (runStatement w x.1 .batch guard) (batchStatementError x.2))

/-- Run the statements of a query. -/
def runQuery (mode : Mode) (statements : List Statement) (guard : Option ℕ) : Sql Unit :=
  match mode with
  | .exec => execStatementsTransactionally w statements guard
  | .batch => runBatch w statements guard
  | mode => .forEach statements fun statement => runStatement w statement mode guard

end Actor

/-- What the actor waits for before it runs a query, and what surrounds it then. -/
structure ActorAnswers where
  /-- Reading the request has thrown. -/
  unreadable : Option Thrown
  draining : Bool
  /-- The owner of the database is checked: the deadline of its lease, if it has one. -/
  ownership : Except Thrown (Option ℕ)
  surroundings : Surroundings

def taskDrainingError : Thrown :=
  .protocol { status := 503, code := .taskDraining, message := "D1 task is draining" }

/-- A query, with its response and the statements that it has run. -/
def actorFetch (mode : Mode) (statements : List Statement) (a : ActorAnswers) :
    Response × List Statement :=
  match a.unreadable with
  | some err => (d1ErrorResponse err, [])
  | none =>
    if a.draining then (d1ErrorResponse taskDrainingError, [])
    else
      match a.ownership with
      | .error err => (d1ErrorResponse err, [])
      | .ok guard =>
        match runQuery a.surroundings mode statements guard
          ⟨[], 0, a.surroundings.maxResultBytes⟩ with
        | (.ok _, s) => (d1QuerySuccessResponse, s.applied)
        | (.error err, s) => (d1ErrorResponse err, s.applied)

end Wdl.D1
