import Wdl.DurableObject.Alarm

/-!
# Deletes that fail

A call of `deleteAlarm` whose backend call fails has to leave the alarm armed. It does, as long
as the row has no fence when a call is made outside of transactions and when a transaction begins
(`failed_deletes_keep_alarm`); inside one transaction, any number of calls may follow each other,
as each of them goes back to the row that the transaction began with.

When a call finds the fence of another call, it takes the row with this fence for the one to go
back to. The other call does not find its fence any more and restores nothing, so the fence stays
in the row, and the alarm is ignored when it is delivered (`overlapping_deletes_lose_alarm`).
-/

namespace Wdl.DurableObject

open List

/-- Two rows hold the same alarm: they differ at most in the last error. -/
def Row.SameAlarm (r r₀ : Row) : Prop :=
  r.scheduledTime = r₀.scheduledTime ∧ r.retryCount = r₀.retryCount ∧ r.inFlight = r₀.inFlight ∧
    r.token = r₀.token

/-- The storage of an object whose alarm is armed, and nothing is going on. -/
def Storage.armed (r : Row) : Storage := ⟨some r, some r.token, [], [], []⟩

/-- The alarm is only touched by deletes and transactions, and the backend fails. -/
def DeletesFail : Event → Prop
  | .deleteAlarm _ | .begin | .rollback | .abort | .commit | .settle => True
  | .answer ok => ok = false
  | _ => False

instance : DecidablePred DeletesFail
  | .deleteAlarm _ | .begin | .rollback | .abort | .commit | .settle => .isTrue trivial
  | .answer ok => inferInstanceAs (Decidable (ok = false))
  | .setAlarm _ _ | .getAlarm | .deleteAll _ | .finishDeleteAll _ | .claim _ _ | .complete _ =>
    .isFalse id

/-- Whether the row has the fence of a delete. -/
def Storage.fenced (s : Storage) : Bool := s.row.any fun r => isAlarmDeleteFenceToken r.token

/-- A delete or a transaction does not find the fence of an earlier delete, unless it is part of
    a transaction. -/
def Unfenced (s : Storage) : Event → Prop
  | .deleteAlarm _ | .begin => s.transactions = [] → s.fenced = false
  | _ => True

instance (s : Storage) : DecidablePred (Unfenced s)
  | .deleteAlarm _ | .begin => inferInstanceAs (Decidable (s.transactions = [] → s.fenced = false))
  | .rollback | .abort | .commit | .settle | .answer _ | .setAlarm _ _ | .getAlarm | .deleteAll _
  | .finishDeleteAll _ | .claim _ _ | .complete _ => .isTrue trivial

/-! ## Tokens -/

theorem isAlarmDeleteFenceToken_fence (uuid token : String) :
    isAlarmDeleteFenceToken (alarmDeleteFenceToken uuid token) = true := by
  rw [isAlarmDeleteFenceToken, alarmDeleteFenceToken, String.toList_append, String.toList_append,
    String.toList_append, append_assoc, append_assoc, isPrefixOf_iff_prefix]
  exact prefix_append _ _

/-! ## The queue -/

/-- Every place in the queue is empty. -/
def Blank (queue : List Slot) : Prop := ∀ slot ∈ queue, slot.effect = some none

/-- One place in the queue is not empty. -/
def Single (slot : Slot) (queue : List Slot) : Prop :=
  ∃ before after, queue = before ++ slot :: after ∧ Blank before ∧ Blank after

theorem Blank.nil : Blank [] := fun _ h => absurd h List.not_mem_nil

variable {queue : List Slot}

theorem Blank.tail {slot : Slot} (h : Blank (slot :: queue)) : Blank queue :=
  fun x hx => h x (mem_cons_of_mem _ hx)

theorem Blank.single (h : Blank queue) (slot : Slot) :
    Single slot (queue ++ [slot]) :=
  ⟨queue, [], rfl, h, .nil⟩

/-- What comes first in a queue with one place that is not empty: this place, or one before. -/
theorem Single.cases {slot first : Slot} (h : Single slot (first :: queue)) :
    first = slot ∧ Blank queue ∨ first.effect = some none ∧ Single slot queue := by
  obtain ⟨before, after, heq, hbefore, hafter⟩ := h
  cases before with
  | nil =>
    cases heq
    exact .inl ⟨rfl, hafter⟩
  | cons x before =>
    cases heq
    exact .inr ⟨hbefore first mem_cons_self, before, after, rfl, hbefore.tail, hafter⟩

/-- Settling the reservations of a queue. -/
def settled (effect : Option Effect) (queue : List Slot) : List Slot :=
  queue.map fun slot => if slot.effect.isNone then { slot with effect := some effect } else slot

theorem Blank.settled (h : Blank queue) (effect : Option Effect) :
    settled effect queue = queue := by
  rw [DurableObject.settled, map_congr_left fun slot hslot => ?_, map_id']
  rw [h slot hslot]
  rfl

theorem Single.settled {answer : Option Bool} (h : Single ⟨none, answer⟩ queue)
    (effect : Option Effect) : Single ⟨some effect, answer⟩ (settled effect queue) := by
  obtain ⟨before, after, rfl, hbefore, hafter⟩ := h
  refine ⟨before, after, ?_, hbefore, hafter⟩
  have hb := hbefore.settled effect
  have ha := hafter.settled effect
  rw [DurableObject.settled] at hb ha ⊢
  rw [map_append, map_cons, hb, ha]
  rfl

theorem Single.blank {answer : Option Bool} (h : Single ⟨some none, answer⟩ queue) :
    Blank queue := by
  obtain ⟨before, after, rfl, hbefore, hafter⟩ := h
  intro slot hslot
  rcases mem_append.1 hslot with hslot | hslot
  · exact hbefore slot hslot
  · rcases mem_cons.1 hslot with rfl | hslot
    · rfl
    · exact hafter slot hslot

/-! ## What is going on -/

variable {s t : Storage} {row : Option Row} {tx : Transaction}

section Phases

variable (r₀ : Row)

/-- The row holds the alarm. -/
def Holds (row : Option Row) : Prop := ∃ r, row = some r ∧ r.SameAlarm r₀

/-- The row has the fence of a delete that goes back to the alarm. -/
def Live (row : Option Row) (effect : Option Effect) : Prop :=
  ∃ r before, row = some r ∧ isAlarmDeleteFenceToken r.token = true ∧ before.SameAlarm r₀ ∧
    effect = some (.delete (some (before, r.token)))

/-- A transaction inside of another one, in which nothing happens to the row. -/
def Inner (row : Option Row) (tx : Transaction) : Prop := tx.nested = true ∧ tx.snapshot = row

/-- The outermost transaction: the row it would go back to, both natively and after a delete,
    holds the alarm, and either nothing has happened in it or its last change is a delete that
    goes back to the alarm. -/
structure Outer (row : Option Row) (queue : List Slot) (tx : Transaction) : Prop where
  nested : tx.nested = false
  baseline : Holds r₀ tx.baselineAlarmRow
  snapshot : Holds r₀ tx.snapshot
  row : Holds r₀ row ∧ tx.effects = [] ∨
    Live r₀ row tx.effects.getLast? ∧ tx.rolledBack = false ∧ tx.reserved = true
  queue : tx.reserved = true ∧ Single ⟨none, none⟩ queue ∨ tx.reserved = false ∧ Blank queue

/-- Nothing is going on, or a delete waits for the backend, or a transaction is open. -/
inductive Phase (s : Storage) : Prop
  | idle (transactions : s.transactions = []) (row : Holds r₀ s.row) (queue : Blank s.queue)
  | pending {effect : Effect} {answer : Option Bool} (transactions : s.transactions = [])
      (row : Live r₀ s.row (some effect)) (queue : Single ⟨some (some effect), answer⟩ s.queue)
      (failed : answer ≠ some true)
  | within {inner : List Transaction} {outer : Transaction}
      (transactions : s.transactions = inner ++ [outer]) (inner : ∀ tx ∈ inner, Inner s.row tx)
      (outer : Outer r₀ s.row s.queue outer)

variable {r₀}

theorem Live.fenced {effect : Option Effect} (h : Live r₀ s.row effect) :
    s.fenced = true := by
  obtain ⟨r, before, hrow, hfence, -, -⟩ := h
  rw [Storage.fenced, hrow]
  exact hfence

/-- A delete of a row that holds the alarm leaves a fence from which it goes back. -/
theorem live_of_delete {before r : Row} (h : before.SameAlarm r₀) (uuid : String) :
    Live r₀
      (writeAlarmDeleteFence r.token
        (alarmDeleteFenceToken uuid (alarmTokenBeforeDelete before.token)) (some r))
      (some (.delete (some (before,
        alarmDeleteFenceToken uuid (alarmTokenBeforeDelete before.token))))) :=
  ⟨_, before, congrArg some (if_pos rfl), isAlarmDeleteFenceToken_fence _ _, h, rfl⟩

theorem Outer.exists_row (h : Outer r₀ row queue tx) : ∃ r, row = some r := by
  rcases h.row with ⟨⟨r, hr, -⟩, -⟩ | ⟨⟨r, -, hr, -⟩, -⟩
  · exact ⟨r, hr⟩
  · exact ⟨r, hr⟩

theorem Outer.goes_back (h : Outer r₀ row queue tx) :
    Holds r₀ (if tx.rolledBack then row else tx.snapshot) := by
  cases hrolled : tx.rolledBack with
  | false => exact h.snapshot
  | true =>
    rcases h.row with ⟨hrow, -⟩ | ⟨-, hne, -⟩
    · exact hrow
    · cases hrolled.symm.trans hne

theorem Inner.goes_back (h : Inner row tx) :
    (if tx.rolledBack then row else tx.snapshot) = row := by
  rw [h.2, ite_self]

theorem Phase.deleteAlarm (h : Phase r₀ s) {uuid : String} (hc : Unfenced s (.deleteAlarm uuid))
    (hopen : s.refusesAlarm = false) :
    Phase r₀ (s.deleteStorageAlarm uuid) := by
  cases h with
  | idle transactions row queue =>
    obtain ⟨r, hr, hsame⟩ := row
    have hdeleted : s.deletedRow = some r := by rw [Storage.deletedRow, transactions]; exact hr
    rw [Storage.deleteStorageAlarm, hdeleted]
    simp only [Storage.appendAlarmSideEffect, transactions, hr, Option.bind_some]
    exact .pending rfl (live_of_delete hsame uuid) (queue.single _) (by decide)
  | pending transactions row queue failed =>
    have hfenced := hc transactions
    cases row.fenced.symm.trans hfenced
  | @within inner outer transactions hinner houter =>
    cases inner with
    | cons tx inner =>
      rw [Storage.refusesAlarm, transactions] at hopen
      simp [(hinner tx mem_cons_self).1] at hopen
    | nil =>
      rw [nil_append] at transactions
      have hrolled : outer.rolledBack = false := by
        rw [Storage.refusesAlarm, transactions] at hopen
        exact (Bool.or_eq_false_iff.1 hopen).1
      obtain ⟨b, hb, hsame⟩ := houter.baseline
      obtain ⟨r, hr⟩ := houter.exists_row
      have hdeleted : s.deletedRow = some b := by rw [Storage.deletedRow, transactions]; exact hb
      rw [Storage.deleteStorageAlarm, hdeleted]
      simp only [Storage.appendAlarmSideEffect, transactions, hr, Option.bind_some]
      refine .within (nil_append _).symm (fun _ h => absurd h not_mem_nil)
        ⟨houter.nested, houter.baseline, houter.snapshot, .inr ⟨?_, hrolled, rfl⟩, .inl ⟨rfl, ?_⟩⟩
      · rw [List.getLast?_concat]
        exact live_of_delete hsame uuid
      · rcases houter.queue with ⟨hres, hsingle⟩ | ⟨hres, hblank⟩
        · rw [hres]
          exact hsingle
        · rw [hres]
          exact hblank.single _

theorem Phase.begin (h : Phase r₀ s) (hc : Unfenced s .begin) : Phase r₀ s.begin := by
  cases h with
  | idle transactions row queue =>
    rw [Storage.begin, transactions]
    exact .within (nil_append _).symm (fun _ h => absurd h not_mem_nil)
      ⟨rfl, row, row, .inl ⟨row, rfl⟩, .inr ⟨rfl, queue⟩⟩
  | pending transactions row queue failed =>
    have hfenced := hc transactions
    cases row.fenced.symm.trans hfenced
  | @within inner outer transactions hinner houter =>
    rw [Storage.begin, transactions]
    refine .within (cons_append).symm (fun tx htx => ?_) houter
    rcases mem_cons.1 htx with rfl | htx
    · exact ⟨by simp, rfl⟩
    · exact hinner tx htx

theorem Phase.rollback (h : Phase r₀ s) (ht : s.rollback = some t) :
    Phase r₀ t := by
  rw [Storage.rollback] at ht
  cases h with
  | idle transactions | pending transactions => rw [transactions] at ht; cases ht
  | @within inner outer transactions hinner houter =>
    rw [transactions] at ht
    cases inner with
    | nil =>
      cases ht
      refine .within (nil_append _).symm (fun _ h => absurd h not_mem_nil)
        ⟨houter.nested, houter.baseline, houter.snapshot, .inl ⟨?_, rfl⟩, houter.queue⟩
      exact houter.goes_back
    | cons tx inner =>
      cases ht
      have hrow := (hinner tx mem_cons_self).goes_back
      simp only [hrow]
      refine .within (cons_append).symm (fun tx' htx => ?_) houter
      rcases mem_cons.1 htx with rfl | htx
      · exact hinner tx mem_cons_self
      · exact hinner tx' (mem_cons_of_mem _ htx)

/-- The place of the outermost transaction becomes empty when it does not change the index. -/
theorem Outer.settled_none (h : Outer r₀ row queue tx) : Blank (settled none queue) := by
  rcases h.queue with ⟨-, hsingle⟩ | ⟨-, hblank⟩
  · exact (hsingle.settled none).blank
  · rw [hblank.settled]
    exact hblank

theorem Phase.abort (h : Phase r₀ s) (ht : s.abort = some t) : Phase r₀ t := by
  rw [Storage.abort] at ht
  cases h with
  | idle transactions | pending transactions => rw [transactions] at ht; cases ht
  | @within inner outer transactions hinner houter =>
    rw [transactions] at ht
    cases inner with
    | nil =>
      simp only [nil_append, houter.nested] at ht
      cases ht
      exact .idle rfl houter.goes_back houter.settled_none
    | cons tx inner =>
      have htx := hinner tx mem_cons_self
      simp only [cons_append, htx.1, htx.goes_back] at ht
      cases ht
      exact .within rfl (fun tx' h => hinner tx' (mem_cons_of_mem _ h)) houter

theorem Phase.commit (h : Phase r₀ s) (ht : s.commit = some t) : Phase r₀ t := by
  rw [Storage.commit] at ht
  cases h with
  | idle transactions | pending transactions => rw [transactions] at ht; cases ht
  | @within inner outer transactions hinner houter =>
    rw [transactions] at ht
    cases inner with
    | nil =>
      simp only [nil_append, houter.nested] at ht
      rcases houter.row with ⟨hrow, heffects⟩ | ⟨hlive, hrolled, hreserved⟩
      · have hlast : (if outer.rolledBack then none else outer.effects.getLast?) = none := by
          rw [heffects, List.getLast?_nil, ite_self]
        rw [hlast] at ht
        cases ht
        exact .idle rfl hrow houter.settled_none
      · -- the last change is queued in the place that the transaction had
        obtain ⟨r, before, hrow, hfence, hsame, hlast⟩ := hlive
        rw [hrolled, hlast] at ht
        cases ht
        rcases houter.queue with ⟨-, hsingle⟩ | ⟨hres, -⟩
        · exact .pending rfl ⟨r, before, hrow, hfence, hsame, rfl⟩ (hsingle.settled _) (by decide)
        · cases hreserved.symm.trans hres
    | cons tx inner =>
      have htx := hinner tx mem_cons_self
      simp only [cons_append, htx.1] at ht
      cases ht
      exact .within rfl (fun tx' h => hinner tx' (mem_cons_of_mem _ h)) houter

/-- When the backend has failed, the row is restored. -/
theorem Live.finish {effect : Effect} (h : Live r₀ row (some effect)) :
    Holds r₀ (effect.finish row false) := by
  obtain ⟨r, before, rfl, -, hsame, heffect⟩ := h
  cases heffect
  exact ⟨_, congrArg some (if_pos rfl), hsame⟩

theorem answer_eq_some {ok : Bool} (h : s.answer ok = some t) :
    ∃ effect rest, s.queue = ⟨some (some effect), none⟩ :: rest ∧
      t = { s with
        index := if ok then effect.apply s.index else s.index
        queue := ⟨some (some effect), some ok⟩ :: rest } := by
  unfold Storage.answer at h
  split at h
  next effect rest hqueue => exact ⟨effect, rest, hqueue, (Option.some.inj h).symm⟩
  next => cases h

theorem settle_eq_some (h : s.settle = some t) :
    ∃ first rest, s.queue = first :: rest ∧
      (first.effect = some none ∧ t = { s with queue := rest } ∨
        ∃ effect ok, first = ⟨some (some effect), some ok⟩ ∧
          t = { s with row := effect.finish s.row ok, queue := rest }) := by
  unfold Storage.settle at h
  split at h
  next answer rest hqueue => exact ⟨_, rest, hqueue, .inl ⟨rfl, (Option.some.inj h).symm⟩⟩
  next effect ok rest hqueue =>
    exact ⟨_, rest, hqueue, .inr ⟨effect, ok, rfl, (Option.some.inj h).symm⟩⟩
  next => cases h

/-- In a transaction, no change of the index is at the head of the queue. -/
theorem Outer.cases_queue {first : Slot} {rest : List Slot} (h : Outer r₀ row (first :: rest) tx) :
    first.effect = none ∨ first.effect = some none ∧ Outer r₀ row rest tx := by
  rcases h.queue with ⟨hres, hsingle⟩ | ⟨hres, hblank⟩
  · rcases hsingle.cases with ⟨rfl, -⟩ | ⟨hfirst, hrest⟩
    · exact .inl rfl
    · exact .inr ⟨hfirst, h.nested, h.baseline, h.snapshot, h.row, .inl ⟨hres, hrest⟩⟩
  · exact .inr ⟨hblank first mem_cons_self, h.nested, h.baseline, h.snapshot, h.row,
      .inr ⟨hres, hblank.tail⟩⟩

theorem Phase.answer (h : Phase r₀ s) (ht : s.answer false = some t) :
    Phase r₀ t := by
  obtain ⟨effect, rest, hqueue, rfl⟩ := answer_eq_some ht
  cases h with
  | idle transactions row queue =>
    have hfirst := queue _ (hqueue ▸ mem_cons_self)
    cases hfirst
  | pending transactions row queue failed =>
    rw [hqueue] at queue
    rcases queue.cases with ⟨hfirst, hrest⟩ | ⟨hfirst, -⟩
    · cases hfirst
      exact .pending transactions row ⟨[], rest, rfl, .nil, hrest⟩ (by decide)
    · cases hfirst
  | within transactions hinner houter =>
    rw [hqueue] at houter
    rcases houter.cases_queue with hfirst | ⟨hfirst, -⟩
    · cases hfirst
    · cases hfirst

theorem Phase.settle (h : Phase r₀ s) (ht : s.settle = some t) : Phase r₀ t := by
  obtain ⟨first, rest, hqueue, hcase⟩ := settle_eq_some ht
  cases h with
  | idle transactions row queue =>
    rw [hqueue] at queue
    rcases hcase with ⟨-, rfl⟩ | ⟨effect, ok, rfl, -⟩
    · exact .idle transactions row queue.tail
    · cases queue _ mem_cons_self
  | pending transactions row queue failed =>
    rw [hqueue] at queue
    rcases queue.cases with ⟨rfl, hrest⟩ | ⟨hfirst, hrest⟩
    · rcases hcase with ⟨hnone, -⟩ | ⟨effect, ok, heq, rfl⟩
      · cases hnone
      · cases heq
        cases ok with
        | true => exact absurd rfl failed
        | false => exact .idle transactions row.finish hrest
    · rcases hcase with ⟨-, rfl⟩ | ⟨effect, ok, rfl, -⟩
      · exact .pending transactions row hrest failed
      · cases hfirst
  | within transactions hinner houter =>
    rw [hqueue] at houter
    rcases houter.cases_queue with hfirst | ⟨hfirst, hrest⟩
    · rcases hcase with ⟨hnone, -⟩ | ⟨effect, ok, rfl, -⟩
      · cases hfirst.symm.trans hnone
      · cases hfirst
    · rcases hcase with ⟨-, rfl⟩ | ⟨effect, ok, rfl, -⟩
      · exact .within transactions hinner hrest
      · cases hfirst

theorem Phase.next {e : Event} (h : Phase r₀ s) (hc : DeletesFail e ∧ Unfenced s e)
    (ht : s.next e = some t) : Phase r₀ t := by
  obtain ⟨hfail, hunfenced⟩ := hc
  cases e with
  | deleteAlarm uuid =>
    cases ht
    cases hrefused : s.refusesAlarm with
    | true => exact h
    | false => exact h.deleteAlarm hunfenced hrefused
  | begin =>
    cases ht
    cases s.refusesTransaction with
    | true => exact h
    | false => exact h.begin hunfenced
  | rollback => exact h.rollback ht
  | abort => exact h.abort ht
  | commit => exact h.commit ht
  | answer ok =>
    cases (hfail : ok = false)
    exact h.answer ht
  | settle => exact h.settle ht
  | setAlarm | getAlarm | deleteAll | finishDeleteAll | claim | complete => cases hfail

end Phases

/-! ## The index -/

@[simp] theorem index_appendAlarmSideEffect (s : Storage) (effect : Effect) :
    (s.appendAlarmSideEffect effect).index = s.index := by
  unfold Storage.appendAlarmSideEffect
  split <;> rfl

@[simp] theorem index_deleteStorageAlarm (s : Storage) (uuid : String) :
    (s.deleteStorageAlarm uuid).index = s.index := by
  unfold Storage.deleteStorageAlarm
  split <;> exact index_appendAlarmSideEffect _ _

theorem index_abort (h : s.abort = some t) : t.index = s.index := by
  unfold Storage.abort at h
  split at h
  next => cases h
  next tx rest _ =>
    cases h
    cases tx.nested <;> rfl

theorem index_commit (h : s.commit = some t) : t.index = s.index := by
  unfold Storage.commit at h
  split at h
  next => cases h
  next tx rest _ =>
    cases h
    cases tx.nested <;> rfl

/-- As long as the backend fails, the index keeps its entry. -/
theorem index_of_fail {e : Event} (hfail : DeletesFail e) (ht : s.next e = some t) :
    t.index = s.index := by
  cases e with
  | deleteAlarm uuid =>
    cases ht
    cases s.refusesAlarm with
    | true => rfl
    | false => exact index_deleteStorageAlarm s uuid
  | begin =>
    cases ht
    cases s.refusesTransaction <;> rfl
  | rollback =>
    simp only [Storage.next, Storage.rollback] at ht
    split at ht
    · cases ht
    · cases ht
      rfl
  | abort => exact index_abort ht
  | commit => exact index_commit ht
  | answer ok =>
    cases (hfail : ok = false)
    obtain ⟨effect, rest, -, rfl⟩ := answer_eq_some ht
    rfl
  | settle =>
    obtain ⟨first, rest, -, ⟨-, rfl⟩ | ⟨effect, ok, -, rfl⟩⟩ := settle_eq_some ht
    · rfl
    · rfl
  | setAlarm | getAlarm | deleteAll | finishDeleteAll | claim | complete => cases hfail

/-! ## Failed deletes -/

/-- An alarm that is delivered is claimed when it is due, if the row holds it. -/
theorem claim_of_holds {r₀ : Row} (hfence : isAlarmDeleteFenceToken r₀.token = false)
    (htime : 0 < r₀.scheduledTime) (hretries : 0 ≤ r₀.retryCount) {now : ℤ} {count : Option ℤ}
    (hcount : ∀ n ∈ count, 0 ≤ n) (hdue : r₀.inFlight = 1 ∨ r₀.scheduledTime ≤ now)
    (h : Holds r₀ row) :
    (Storage.claimStorageAlarm row now ⟨some r₀.token, count⟩).1 =
      some (r₀.token, count.getD r₀.retryCount) := by
  obtain ⟨r, rfl, hsched, hretry, hflight, htoken⟩ := h
  have hfields : alarmFieldsFromRow r = some (r₀.scheduledTime, r₀.retryCount) := by
    rw [alarmFieldsFromRow, hsched, hretry, if_pos ⟨htime, hretries⟩]
  have hclaimed : 0 ≤ count.getD r₀.retryCount := by
    cases count with
    | none => exact hretries
    | some n => exact hcount n rfl
  have hready : ¬(count.getD r₀.retryCount < 0 ∨ r₀.inFlight ≠ 1 ∧ now < r₀.scheduledTime) := by
    omega
  simp only [Storage.claimStorageAlarm, htoken, hfence, hfields, hflight, Bool.false_eq_true,
    if_false, Option.any_some, bne_self_eq_false, Bool.and_false, if_neg hready]

/-- A run in which the alarm is only touched by deletes whose backend calls fail, and in which
    no delete and no transaction begins while the row has the fence of an earlier delete: when
    everything has settled, the row holds the alarm as before, the index too, and the alarm is
    claimed when it is delivered, whatever retry count the delivery carries. -/
theorem failed_deletes_keep_alarm {r₀ : Row} (hfence : isAlarmDeleteFenceToken r₀.token = false)
    {es : List Event} {t : Storage}
    (hmeets : (storageMachine (.armed r₀)).MeetsFrom (fun s e => DeletesFail e ∧ Unfenced s e)
      (.armed r₀) es)
    (hrun : (storageMachine (.armed r₀)).run es = some t) (hqueue : t.queue = [])
    (htransactions : t.transactions = []) :
    t.index = some r₀.token ∧ Holds r₀ t.row ∧
      ∀ now (count : Option ℤ), 0 < r₀.scheduledTime → 0 ≤ r₀.retryCount → (∀ n ∈ count, 0 ≤ n) →
        r₀.inFlight = 1 ∨ r₀.scheduledTime ≤ now →
        (Storage.claimStorageAlarm t.row now ⟨some r₀.token, count⟩).1 =
          some (r₀.token, count.getD r₀.retryCount) := by
  have hstart : Storage.index (.armed r₀) = some r₀.token ∧ Phase r₀ (.armed r₀) :=
    ⟨rfl, .idle rfl ⟨r₀, rfl, rfl, rfl, rfl, rfl⟩ .nil⟩
  obtain ⟨hindex, hphase⟩ := Machine.runFrom_induction_of_meets
    (P := fun s : Storage => s.index = some r₀.token ∧ Phase r₀ s)
    (fun m e t h hc ht => ⟨(index_of_fail hc.1 ht).trans h.1, h.2.next hc ht⟩) hmeets hrun hstart
  have hholds : Holds r₀ t.row := by
    cases hphase with
    | idle _ row _ => exact row
    | pending _ _ queue _ =>
      obtain ⟨before, after, heq, -, -⟩ := queue
      rw [hqueue] at heq
      cases before <;> cases heq
    | @within inner outer transactions _ _ =>
      rw [htransactions] at transactions
      cases inner <;> cases transactions
  exact ⟨hindex, hholds, fun _ _ htime hretries hcount hdue =>
    claim_of_holds hfence htime hretries hcount hdue hholds⟩

/-- An alarm that was due at time `1000`. -/
def exampleRow : Row := ⟨1000, 0, 0, "t", none⟩

/-- Two deletes in one transaction, and a third one after it: all fail, and the alarm is kept. -/
theorem failed_deletes_keep_alarm_transaction :
    (storageMachine (.armed exampleRow)).run
        [.begin, .deleteAlarm "u1", .deleteAlarm "u2", .commit, .answer false, .settle,
          .deleteAlarm "u3", .answer false, .settle] = some (.armed exampleRow) ∧
      Holds exampleRow (some exampleRow) ∧
      (Storage.claimStorageAlarm (some exampleRow) 2000 ⟨some "t", some 3⟩).1 = some ("t", 3) := by
  have hrun : (storageMachine (.armed exampleRow)).run
      [.begin, .deleteAlarm "u1", .deleteAlarm "u2", .commit, .answer false, .settle,
        .deleteAlarm "u3", .answer false, .settle] = some (.armed exampleRow) := by decide
  obtain ⟨-, hholds, hclaim⟩ := failed_deletes_keep_alarm (by decide) (by decide) hrun rfl rfl
  exact ⟨hrun, hholds, hclaim 2000 (some 3) (by decide) (by decide) (by simp) (by decide)⟩

/-- Two deletes outside of transactions, the second one before the backend has answered the
    first: both fail, the fence of the first one stays in the row, and every delivery of the alarm
    is ignored. -/
theorem overlapping_deletes_lose_alarm :
    (storageMachine (.armed exampleRow)).run
        [.deleteAlarm "u1", .deleteAlarm "u2", .answer false, .settle, .answer false, .settle] =
      some ⟨some ⟨1000, 0, 1, "delete:u1:t", none⟩, some "t", [], [], []⟩ ∧
    ¬ Holds exampleRow (some ⟨1000, 0, 1, "delete:u1:t", none⟩) ∧
    ∀ now delivery, (Storage.claimStorageAlarm (some ⟨1000, 0, 1, "delete:u1:t", none⟩) now
      delivery).1 = none := by
  refine ⟨by decide, ?_, fun _ _ => congrArg Prod.fst (if_pos (by decide))⟩
  rintro ⟨r, hr, -, -, -, htoken⟩
  cases hr
  exact absurd htoken (by decide)

end Wdl.DurableObject
