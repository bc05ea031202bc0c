import Wdl.Base.Machine

/-!
# The alarm of a Durable Object

A Durable Object has at most one alarm. The object keeps it as a row of its own SQLite storage,
and the backend keeps an index entry for it, from which alarms are delivered; both hold the
token of the alarm. The facade of the storage changes the row at once, and queues the change of
the index: the changes of one object are made one after the other.

* A delete leaves a *fence* in the row until the backend has answered: a token that is derived
  from the token of the alarm. When the backend fails, the row is restored if the fence is still
  there.
* In a transaction, the changes of the index wait for the commit, and only the last one is made.
  A reservation keeps their place in the queue.

The facade is a machine. An event is a call, the beginning or the end of a transaction, the
answer of the backend to the change at the head of the queue, or what is done with the answer.
-/

namespace Wdl.DurableObject

/-! ## Tokens -/

def alarmDeleteFencePrefix : String := "delete:"

def isAlarmDeleteFenceToken (token : String) : Bool :=
  alarmDeleteFencePrefix.toList.isPrefixOf token.toList

/-- The token of the alarm that a delete found, if the token is the fence of one. -/
def alarmTokenBeforeDelete (token : String) : String :=
  if isAlarmDeleteFenceToken token then
    let rest := (token.toList.drop alarmDeleteFencePrefix.length).dropWhile (· != ':')
    if rest.tail.isEmpty then token else String.ofList rest.tail
  else token

/-- The fence of a delete, with a fresh identifier. -/
def alarmDeleteFenceToken (uuid token : String) : String :=
  alarmDeleteFencePrefix ++ uuid ++ ":" ++ token

/-! ## The row -/

/-- The row of the alarm. -/
structure Row where
  scheduledTime : ℤ
  retryCount : ℤ
  inFlight : ℤ
  token : String
  lastError : Option String
  deriving DecidableEq

/-- The fields of a row, if they make sense. -/
def alarmFieldsFromRow (row : Row) : Option (ℤ × ℤ) :=
  if 0 < row.scheduledTime ∧ 0 ≤ row.retryCount then some (row.scheduledTime, row.retryCount)
  else none

/-- `DELETE` of the row with a token. -/
def deleteAlarmRow (token : String) (row : Option Row) : Option Row :=
  row.filter fun r => r.token != token

/-- The row goes if it still belongs to the alarm with the token. -/
def deleteAlarmRowIfLineage (token : String) (row : Option Row) : Option Row :=
  row.filter fun r => alarmTokenBeforeDelete r.token != token

/-- The fence replaces the token that was expected. -/
def writeAlarmDeleteFence (expectedToken fenceToken : String) (row : Option Row) : Option Row :=
  row.map fun r =>
    if r.token = expectedToken then { r with token := fenceToken, inFlight := 1 } else r

/-- The row is restored if it still has the fence. -/
def restoreAlarmRowIfDeleteFence (fenceToken : String) (before : Row) (token : String)
    (row : Option Row) : Option Row :=
  row.map fun r =>
    if r.token = fenceToken then
      ⟨before.scheduledTime, before.retryCount, before.inFlight, token, none⟩
    else r

/-! ## Changes of the index -/

/-- A change of the index that has been queued, with what is done after the backend's answer. -/
inductive Effect
  /-- The index gets a token; if the backend fails, the row with this token goes. -/
  | set (token : String)
  /-- The index loses the token of the row that the delete found, if there was one; it comes with
      the fence that was written. -/
  | delete (before : Option (Row × String))
  /-- The index gets the token of the row, after a reading. -/
  | repair (token : String)
  /-- The index loses the token that the row had when everything was deleted. -/
  | deleteAll (token : Option String)
  deriving DecidableEq

/-- What a change makes of the index when the backend succeeds. A delete only removes its own
    token. -/
def Effect.apply (index : Option String) : Effect → Option String
  | .set token | .repair token => some token
  | .delete none => index
  | .delete (some (before, _)) =>
    index.filter fun held => held != alarmTokenBeforeDelete before.token
  | .deleteAll token => index.filter fun held => some held != token

/-- What is done with the row after the backend's answer. -/
def Effect.finish (row : Option Row) : Effect → Bool → Option Row
  | .set token, ok => if ok then row else deleteAlarmRow token row
  | .delete none, _ => row
  | .delete (some (before, fenceToken)), ok =>
    if ok then deleteAlarmRowIfLineage (alarmTokenBeforeDelete before.token) row
    else restoreAlarmRowIfDeleteFence fenceToken before before.token row
  | .repair _, _ | .deleteAll _, _ => row

/-- A place in the queue of changes. -/
structure Slot where
  /-- The change, `none` as long as its transaction is open. A transaction that is not
      committed leaves its place empty. -/
  effect : Option (Option Effect)
  /-- The answer of the backend. -/
  answer : Option Bool
  deriving DecidableEq

/-! ## Transactions -/

/-- A transaction that is open. -/
structure Transaction where
  /-- The changes of the index that it has collected. -/
  effects : List Effect
  /-- It has a place in the queue. -/
  reserved : Bool
  /-- The row when it began, unless it is nested. -/
  baselineAlarmRow : Option Row
  nested : Bool
  rolledBack : Bool
  /-- The row that the database goes back to if the transaction is not committed. -/
  snapshot : Option Row
  deriving DecidableEq

/-- The storage of an object: the row of its alarm, the token of its entry in the index of the
    backend, the queue of changes, the transactions that are open, the innermost first, and the
    tokens that calls of `deleteAll` found which are still deleting other keys. -/
structure Storage where
  row : Option Row
  index : Option String
  queue : List Slot
  transactions : List Transaction
  deletingAll : List (Bool × Option String)
  deriving DecidableEq

namespace Storage

/-- Whether a call about the alarm is refused: in a transaction that was rolled back, or that is
    nested. -/
def refusesAlarm (s : Storage) : Bool :=
  match s.transactions with
  | [] => false
  | tx :: _ => tx.rolledBack || tx.nested

/-- A change that is not part of a transaction is queued. -/
def enqueueAlarmMutation (s : Storage) (effect : Effect) : Storage :=
  { s with queue := s.queue ++ [⟨some (some effect), none⟩] }

/-- A change of a transaction, which gets its place in the queue with the first one. -/
def appendAlarmSideEffect (s : Storage) (effect : Effect) : Storage :=
  match s.transactions with
  | [] => s.enqueueAlarmMutation effect
  | tx :: rest =>
    { s with
      queue := if tx.reserved then s.queue else s.queue ++ [⟨none, none⟩]
      transactions := { tx with effects := tx.effects ++ [effect], reserved := true } :: rest }

/-- The place of a transaction in the queue gets its change, or none. -/
def settleAlarmMutationReservation (s : Storage) (effect : Option Effect) : Storage :=
  { s with queue := s.queue.map fun slot =>
      if slot.effect.isNone then { slot with effect := some effect } else slot }

def setStorageAlarm (s : Storage) (scheduledTime : ℤ) (uuid : String) : Storage :=
  { s with row := some ⟨scheduledTime, 0, 0, uuid, none⟩ }.appendAlarmSideEffect (.set uuid)

/-- The row that a delete is about: in a transaction, the one it began with. -/
def deletedRow (s : Storage) : Option Row :=
  match s.transactions with
  | [] => s.row
  | tx :: _ => tx.baselineAlarmRow

def deleteStorageAlarm (s : Storage) (uuid : String) : Storage :=
  match s.deletedRow with
  | none => { s with row := none }.appendAlarmSideEffect (.delete none)
  | some row =>
    let fenceToken := alarmDeleteFenceToken uuid (alarmTokenBeforeDelete row.token)
    { s with row := s.row.bind fun r => writeAlarmDeleteFence r.token fenceToken s.row }
      |>.appendAlarmSideEffect (.delete (some (row, fenceToken)))

/-- A reading of the alarm, which repairs the index outside of transactions. -/
def getStorageAlarm (s : Storage) : Storage :=
  match s.row with
  | none => s
  | some row =>
    if isAlarmDeleteFenceToken row.token ∨ row.inFlight = 1 then s
    else if (alarmFieldsFromRow row).isNone then { s with row := none }
    else if s.transactions.isEmpty then s.enqueueAlarmMutation (.repair row.token)
    else s

/-- Whether a transaction is refused: in one that was rolled back. -/
def refusesTransaction (s : Storage) : Bool :=
  match s.transactions with
  | [] => false
  | tx :: _ => tx.rolledBack

/-- A transaction begins: its callback is called. -/
def begin (s : Storage) : Storage :=
  let nested := !s.transactions.isEmpty
  let tx : Transaction := ⟨[], false, if nested then none else s.row, nested, false, s.row⟩
  { s with transactions := tx :: s.transactions }

/-- The innermost transaction is rolled back by its callback. -/
def rollback (s : Storage) : Option Storage :=
  match s.transactions with
  | [] => none
  | tx :: rest => some { s with
      row := if tx.rolledBack then s.row else tx.snapshot
      transactions := { tx with effects := [], rolledBack := true } :: rest }

/-- The innermost transaction ends with an error: the database goes back. -/
def abort (s : Storage) : Option Storage :=
  match s.transactions with
  | [] => none
  | tx :: rest =>
    let s := { s with row := if tx.rolledBack then s.row else tx.snapshot, transactions := rest }
    some (if tx.nested then s else s.settleAlarmMutationReservation none)

/-- The innermost transaction is committed, or it ends after it was rolled back. Only the last
    change of the index is made. -/
def commit (s : Storage) : Option Storage :=
  match s.transactions with
  | [] => none
  | tx :: rest =>
    let s := { s with transactions := rest }
    some (if tx.nested then s
      else s.settleAlarmMutationReservation (if tx.rolledBack then none else tx.effects.getLast?))

/-- The backend answers the change at the head of the queue. -/
def answer (s : Storage) (ok : Bool) : Option Storage :=
  match s.queue with
  | ⟨some (some effect), none⟩ :: rest => some { s with
      index := if ok then effect.apply s.index else s.index
      queue := ⟨some (some effect), some ok⟩ :: rest }
  | _ => none

/-- The change at the head of the queue is finished. -/
def settle (s : Storage) : Option Storage :=
  match s.queue with
  | ⟨some none, _⟩ :: rest => some { s with queue := rest }
  | ⟨some (some effect), some ok⟩ :: rest =>
    some { s with row := effect.finish s.row ok, queue := rest }
  | _ => none

/-- A call of `deleteAll` starts to delete the other keys. -/
def deleteAll (s : Storage) (deleteAlarm : Bool) : Storage :=
  { s with deletingAll := s.deletingAll ++
      [(deleteAlarm, s.row.map fun row => alarmTokenBeforeDelete row.token)] }

/-- A call of `deleteAll` has deleted the other keys. -/
def finishDeleteAll (s : Storage) (call : ℕ) : Option Storage :=
  match s.deletingAll[call]? with
  | none => none
  | some (deleteAlarm, token) =>
    let s := { s with deletingAll := s.deletingAll.eraseIdx call }
    some (if deleteAlarm then { s with row := none }.enqueueAlarmMutation (.deleteAll token) else s)

/-- The alarm that the backend delivers. -/
structure Delivery where
  token : Option String
  retryCount : Option ℤ

/-- An alarm that is delivered is claimed, with its token and retry count, or ignored. A negative
    retry count is refused. -/
def claimStorageAlarm (row : Option Row) (now : ℤ) (alarm : Delivery) :
    Option (String × ℤ) × Option Row :=
  match row with
  | none => (none, none)
  | some row =>
    if isAlarmDeleteFenceToken row.token then (none, some row)
    else
      match alarmFieldsFromRow row with
      | none => (none, none)
      | some (scheduledTime, retryCount) =>
        if alarm.token.any fun token => token != "" && token != row.token then (none, some row)
        else
          let retryCount := alarm.retryCount.getD retryCount
          if retryCount < 0 ∨ row.inFlight ≠ 1 ∧ now < scheduledTime then (none, some row)
          else (some (row.token, retryCount), some ⟨scheduledTime, retryCount, 1, row.token, none⟩)

end Storage

/-- What can happen to the storage of an object. -/
inductive Event
  | setAlarm (scheduledTime : ℤ) (uuid : String)
  | deleteAlarm (uuid : String)
  | getAlarm
  | begin
  | rollback
  | abort
  | commit
  | answer (ok : Bool)
  | settle
  | deleteAll (deleteAlarm : Bool)
  | finishDeleteAll (call : ℕ)
  | claim (now : ℤ) (alarm : Storage.Delivery)
  | complete (token : String)

/-- The storage after an event. A call that is refused leaves it as it is. -/
def Storage.next (s : Storage) : Event → Option Storage
  | .setAlarm scheduledTime uuid =>
    some (if s.refusesAlarm || decide (scheduledTime ≤ 0) then s
      else s.setStorageAlarm scheduledTime uuid)
  | .deleteAlarm uuid => some (if s.refusesAlarm then s else s.deleteStorageAlarm uuid)
  | .getAlarm => some (if s.refusesAlarm then s else s.getStorageAlarm)
  | .begin => some (if s.refusesTransaction then s else s.begin)
  | .rollback => s.rollback
  | .abort => s.abort
  | .commit => s.commit
  | .answer ok => s.answer ok
  | .settle => s.settle
  | .deleteAll deleteAlarm =>
    some (if s.transactions.isEmpty then s.deleteAll deleteAlarm else s)
  | .finishDeleteAll call => s.finishDeleteAll call
  | .claim now alarm => some { s with row := (Storage.claimStorageAlarm s.row now alarm).2 }
  | .complete token => some { s with row := deleteAlarmRowIfLineage token s.row }

/-- The storage of an object as a machine, from some state on. -/
def storageMachine (start : Storage) : Machine Storage Event := ⟨start, Storage.next⟩

end Wdl.DurableObject
