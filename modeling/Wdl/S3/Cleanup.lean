import Wdl.Base.RelyGuarantee
import Mathlib.Algebra.Group.Nat.Defs
import Mathlib.Data.Set.Basic

/-!
# S3 cleanup

The worker `s3-cleanup` deletes the objects under the prefixes of deleted workers. A message of its
queue becomes a row of a table, and whoever processes a row deletes one page of one prefix and
stores how far it got. Messages and cron runs process rows from snapshots of any age, and both the
table and S3 may fail at any call, with or without effect.

* `Cleared` says what a stored checkpoint stands for, and `Finished` what the deletion of a row
  stands for.
* `processTask_safe`: from a snapshot whose checkpoint stands for the truth, only such checkpoints
  are stored.
* `cleanup_forgets_nothing` puts this together for every interleaving.
-/

namespace Wdl.S3.Cleanup

/-- What the cleanup works with: object keys, continuation tokens, and which task ids and
    prefixes are well formed (`validateS3CleanupTaskInput`). -/
structure Bucket where
  Key : Type
  Token : Type
  /-- The key starts with the prefix. -/
  Under : String → Key → Prop
  /-- The key comes after the page that the token came with. -/
  After : Token → Key → Prop
  valid : String → List String → Bool

variable (B : Bucket)

/-- What is sent to the queue; `source` says that there is a source object. -/
structure Intent where
  taskId : String
  prefixes : List String
  source : Bool := true
  createdAt : Option ℕ := none
  nextAttemptAt : Option ℕ := none

def Intent.valid (intent : Intent) : Bool :=
  B.valid intent.taskId intent.prefixes && intent.source

structure Checkpoint where
  prefixIndex : ℕ
  continuationToken : Option B.Token
  pageCount : ℕ
  deletedCount : ℕ

inductive Status
  | pending | failed | malformed
  deriving DecidableEq

/-- A row of the table, and a snapshot of it. -/
structure Task where
  id : String
  prefixes : List String
  source : Bool := true
  state : Status := .pending
  attempts : ℕ := 0
  nextAttemptAt : Option ℕ
  checkpoint : Option (Checkpoint B) := none

/-- A page of a listing; what is not on a truncated page follows with its token. -/
structure Page where
  keys : List B.Key
  isTruncated : Bool
  nextContinuationToken : Option B.Token

inductive Outcome
  | done | retry | failed | malformed | missingTask | alreadyFailed
  deriving DecidableEq

/-- The statements that write to the table. -/
inductive Statement
  | insertIntent (intent : Intent) (now : ℕ)
  | markMalformed (id : String)
  | deleteTaskRow (id : String)
  | markFailure (id : String) (attempts : ℕ)
  | scheduleRetry (id : String) (attempts now : ℕ)
  | saveProgress (id : String) (checkpoint : Checkpoint B) (now : ℕ)

/-- The calls. A message whose body has not the form of an intent is `none`. -/
inductive Call
  | now
  | receive
  | loadTask (id : String)
  | listDueTasks (now limit : ℕ)
  | claimTask (id : String) (now : ℕ)
  | write (statement : Statement B)
  | list (pre : String) (token : Option B.Token)
  | deleteObjects (keys : List B.Key)
  | ack (body : Option Intent)
  | retry (body : Option Intent)

/-- What is answered; `none` is an error, but for the body of a message. -/
def api : Interface where
  Call := Call B
  Ans
    | .now => ℕ
    | .receive => Option Intent
    | .loadTask _ => Option (Option (Task B))
    | .listDueTasks .. => Option (List (Task B))
    | .claimTask .. => Option Bool
    | .list .. => Option (Page B)
    | .deleteObjects _ => Option ℕ
    | .write _ => Option Unit
    | .ack _ => Unit
    | .retry _ => Unit

/-! ## The worker -/

def maxAttempts : ℕ := 10
def backoffMaxMs : ℕ := 30 * 60000
def backoffBaseMs : ℕ := 60000
def cronBatch : ℕ := 100
def maxListPages : ℕ := 1000
def processingLeaseMs : ℕ := 30 * 60000

def nextBackoffMs (attempts : ℕ) : ℕ := min (backoffBaseMs * 2 ^ (attempts - 1)) backoffMaxMs

abbrev Worker (α : Type) := Prog (api B) Unit α

variable {B}

/-- An error is thrown. -/
def answered {α : Type} : Option α → Worker B α
  | some a => .ret a
  | none => .fail ()

/-- The token for the next page. A truncated page without one is an error. -/
def nextToken (page : Page B) : Worker B (Option B.Token) :=
  if page.isTruncated then (answered page.nextContinuationToken).bind fun t => .ret (some t)
  else .ret none

/-- How many objects were deleted, and the token for the next page. -/
def deletePrefixPage (pre : String) (token : Option B.Token) : Worker B (ℕ × Option B.Token) :=
  .call (.list pre token) fun (page : Option (Page B)) => (answered page).bind fun page =>
    if page.keys = [] then (nextToken page).bind fun next => .ret (0, next)
    else .call (.deleteObjects page.keys) fun (deleted : Option ℕ) =>
      (answered deleted).bind fun deleted => (nextToken page).bind fun next => .ret (deleted, next)

/-- A statement, and what is returned after it. -/
def write (statement : Statement B) (outcome : Outcome) : Worker B Outcome :=
  .call (.write statement) fun (r : Option Unit) => (answered r).bind fun _ => .ret outcome

def saveProgress (id : String) (checkpoint : Checkpoint B) : Worker B Outcome :=
  .call Call.now fun (now : ℕ) => write (.saveProgress id checkpoint now) .retry

/-- What follows when all objects under the prefixes before an index are deleted. -/
def nextPrefix (task : Task B) (prefixIndex deletedCount : ℕ) : Worker B Outcome :=
  if prefixIndex < task.prefixes.length then
    saveProgress task.id ⟨prefixIndex, none, 0, deletedCount⟩
  else write (.deleteTaskRow task.id) .done

/-- Where the processing of a row starts. -/
def Task.start (task : Task B) : Checkpoint B := task.checkpoint.getD ⟨0, none, 0, 0⟩

/-- One page of one prefix. -/
def processPage (task : Task B) : Worker B Outcome :=
  let start := task.start
  if task.prefixes.length < start.prefixIndex then .fail ()
  else
    match task.prefixes[start.prefixIndex]? with
    | none => nextPrefix task start.prefixIndex start.deletedCount
    | some pre => (deletePrefixPage pre start.continuationToken).bind fun r =>
      match r.2 with
      | some token =>
        if maxListPages ≤ start.pageCount + 1 then .fail ()
        else saveProgress task.id
          ⟨start.prefixIndex, some token, start.pageCount + 1, start.deletedCount + r.1⟩
      | none => nextPrefix task (start.prefixIndex + 1) (start.deletedCount + r.1)

/-- What is stored about a failure. -/
def recordFailure (task : Task B) : Worker B Outcome :=
  if maxAttempts ≤ task.attempts + 1 then
    write (.markFailure task.id (task.attempts + 1)) .failed
  else .call Call.now fun (now : ℕ) =>
    write (.scheduleRetry task.id (task.attempts + 1) now) .retry

def processTask (task : Task B) : Worker B Outcome :=
  if task.state ≠ .pending then .ret .alreadyFailed
  else .call Call.now fun (now : ℕ) =>
    if task.nextAttemptAt.any (now < ·) then .ret .retry
    else .call (.claimTask task.id now) fun (claimed : Option Bool) =>
      (answered claimed).bind fun claimed =>
        if claimed = false then .ret .retry
        else if (B.valid task.id task.prefixes && task.source) = false then
          write (.markMalformed task.id) .malformed
        else (processPage task).attempt.bind fun
          | .ok outcome => .ret outcome
          | .error () => recordFailure task

/-- `scheduled` -/
def scheduled : Worker B (List Outcome) :=
  .call Call.now fun (now : ℕ) => .call (.listDueTasks now cronBatch) fun
    (due : Option (List (Task B))) => (answered due).bind fun due => .forEach due processTask

/-- What is done for a message once its row is stored. -/
def processStored (id : String) : Worker B Outcome :=
  .call (.loadTask id) fun (task : Option (Option (Task B))) => (answered task).bind fun
    | none => .ret .missingTask
    | some task => processTask task

/-- `queue`, for one message. -/
def queueMessage : Worker B (List Outcome) :=
  .call Call.receive fun (body : Option Intent) =>
    match body with
    | none => .call (.ack none) fun _ => .ret []
    | some intent =>
      if intent.valid B = false then
        .call (.ack (some intent)) fun _ => .ret []
      else .call Call.now fun (now : ℕ) =>
        .call (.write (.insertIntent intent now)) fun (inserted : Option Unit) =>
          match inserted with
          | none => .call (.retry (some intent)) fun _ => .ret []
          | some _ =>
            ((processStored intent.taskId).attempt : Worker B _).bind fun r =>
              .call (.ack (some intent)) fun _ => .ret r.toOption.toList

/-! ## The queue, the table and the bucket -/

variable (B) in
structure Store where
  objects : Set B.Key
  rows : String → Option (Task B)
  /-- The intents that were sent to the queue. -/
  enqueued : Set Intent
  /-- The tasks that were stored at some time. -/
  persisted : Set String
  /-- The messages that were acknowledged. -/
  acked : List (Option Intent)

namespace Store

/-- `UPDATE … WHERE id = ?` -/
def update (s : Store B) (id : String) (f : Task B → Task B) : Store B :=
  { s with rows := Function.update s.rows id ((s.rows id).map f) }

/-- The row may be claimed. -/
def claimable (s : Store B) (id : String) (now : ℕ) : Bool :=
  (s.rows id).any fun t => t.state = .pending && t.nextAttemptAt.any (· ≤ now)

def claim (s : Store B) (id : String) (now : ℕ) : Store B :=
  if s.claimable id now then
    s.update id fun t => { t with nextAttemptAt := some (now + processingLeaseMs) }
  else s

/-- What a statement does. -/
def write (s : Store B) : Statement B → Store B
  | .insertIntent intent now =>
    { s with
      rows := if (s.rows intent.taskId).isSome then s.rows else Function.update s.rows intent.taskId
        (some { id := intent.taskId, prefixes := intent.prefixes, source := intent.source,
                nextAttemptAt := intent.nextAttemptAt <|> intent.createdAt <|> some now })
      persisted := insert intent.taskId s.persisted }
  | .markMalformed id => s.update id fun t => { t with state := .malformed, nextAttemptAt := none }
  | .deleteTaskRow id => { s with rows := Function.update s.rows id none }
  | .markFailure id attempts =>
    s.update id fun t => { t with state := .failed, attempts, nextAttemptAt := none }
  | .scheduleRetry id attempts now => s.update id fun t =>
      { t with attempts, nextAttemptAt := some (now + nextBackoffMs attempts) }
  | .saveProgress id checkpoint now => s.update id fun t =>
      { t with attempts := 0, nextAttemptAt := some now, checkpoint := some checkpoint }

/-- A listing is complete: an object that is not on the page comes after its token. -/
def Lists (s : Store B) (pre : String) (token : Option B.Token) (page : Page B) : Prop :=
  ∀ k ∈ s.objects, B.Under pre k → (∀ t, token = some t → B.After t k) →
    k ∈ page.keys ∨ page.isTruncated = true ∧ ∀ t, page.nextContinuationToken = some t → B.After t k

/-- A call, with its answer. What fails may have been done, wholly or, for objects, in part. -/
inductive Answers : (c : Call B) → Store B → (api B).Ans c → Store B → Prop
  | now (s : Store B) (now : ℕ) : Answers .now s now s
  | malformed (s : Store B) : Answers .receive s none s
  | receive {s : Store B} {intent : Intent} (h : intent ∈ s.enqueued) :
      Answers .receive s (some intent) s
  | load (s : Store B) (id : String) : Answers (.loadTask id) s (some (s.rows id)) s
  | loadFailed (s : Store B) (id : String) : Answers (.loadTask id) s none s
  | due {s : Store B} {now limit : ℕ} {tasks : List (Task B)} (hlimit : tasks.length ≤ limit)
      (h : ∀ t ∈ tasks, s.rows t.id = some t ∧ s.claimable t.id now = true) :
      Answers (.listDueTasks now limit) s (some tasks) s
  | dueFailed (s : Store B) (now limit : ℕ) : Answers (.listDueTasks now limit) s none s
  | claimed (s : Store B) (id : String) (now : ℕ) :
      Answers (.claimTask id now) s (some (s.claimable id now)) (s.claim id now)
  | claimLost (s : Store B) (id : String) (now : ℕ) :
      Answers (.claimTask id now) s none (s.claim id now)
  | claimFailed (s : Store B) (id : String) (now : ℕ) : Answers (.claimTask id now) s none s
  | written (s : Store B) (st : Statement B) : Answers (.write st) s (some ()) (s.write st)
  | writeLost (s : Store B) (st : Statement B) : Answers (.write st) s none (s.write st)
  | writeFailed (s : Store B) (st : Statement B) : Answers (.write st) s none s
  | listed {s : Store B} {pre : String} {token : Option B.Token} {page : Page B}
      (h : s.Lists pre token page) : Answers (.list pre token) s (some page) s
  | listFailed (s : Store B) (pre : String) (token : Option B.Token) :
      Answers (.list pre token) s none s
  | deleted (s : Store B) (keys : List B.Key) (count : ℕ) :
      Answers (.deleteObjects keys) s (some count) { s with objects := s.objects \ {k | k ∈ keys} }
  | deleteFailed {s : Store B} {keys : List B.Key} {left : Set B.Key} (h : left ⊆ s.objects)
      (hkeys : s.objects \ {k | k ∈ keys} ⊆ left) :
      Answers (.deleteObjects keys) s none { s with objects := left }
  | ack (s : Store B) (body : Option Intent) :
      Answers (.ack body) s () { s with acked := s.acked ++ [body] }
  | retry (s : Store B) (body : Option Intent) : Answers (.retry body) s () s

/-- What others do: they send intents to the queue, never two for one task, delete objects, and
    write none under a prefix whose cleanup was sent. -/
inductive Moves : Store B → Store B → Prop
  | enqueue {s : Store B} {intent : Intent}
      (h : ∀ i ∈ s.enqueued, i.taskId = intent.taskId → i = intent) :
      Moves s { s with enqueued := insert intent s.enqueued }
  | objects {s : Store B} {objects : Set B.Key}
      (h : ∀ i ∈ s.enqueued, ∀ p ∈ i.prefixes, ∀ k ∈ objects, B.Under p k → k ∈ s.objects) :
      Moves s { s with objects }

end Store

variable (B) in
/-- Cron runs and messages of the queue. -/
def cleanup : System (api B) (Store B) Bool Unit (List Outcome) Unit where
  body _ cron := if cron then scheduled else queueMessage
  call := Store.Answers
  env _ := Store.Moves

def Initial (s : Store B) : Prop :=
  s.rows = (fun _ => none) ∧ s.enqueued = ∅ ∧ s.persisted = ∅ ∧ s.acked = []

/-! ## What a checkpoint stands for -/

/-- All objects under the prefix are gone. -/
def Emptied (objects : Set B.Key) (pre : String) : Prop := ∀ k ∈ objects, ¬ B.Under pre k

/-- The prefixes before the checkpoint's are emptied, and what is left of its own prefix comes
    after its token. -/
structure Cleared (objects : Set B.Key) (prefixes : List String) (c : Checkpoint B) : Prop where
  before : ∀ j < c.prefixIndex, ∀ p, prefixes[j]? = some p → Emptied objects p
  after : ∀ p t, prefixes[c.prefixIndex]? = some p → c.continuationToken = some t →
    ∀ k ∈ objects, B.Under p k → B.After t k

def Finished (objects : Set B.Key) (prefixes : List String) : Prop :=
  ∀ p ∈ prefixes, Emptied objects p

/-- The objects under the prefixes only get fewer. -/
def Fewer (prefixes : List String) (objects objects' : Set B.Key) : Prop :=
  ∀ p ∈ prefixes, ∀ k ∈ objects', B.Under p k → k ∈ objects

variable {prefixes : List String}

theorem Emptied.fewer {objects objects' : Set B.Key} {p : String} (h : Emptied objects p)
    (hp : p ∈ prefixes) (hless : Fewer prefixes objects objects') :
    Emptied objects' p :=
  fun k hk hu => h k (hless p hp k hk hu) hu

theorem Cleared.fewer {objects objects' : Set B.Key} {c : Checkpoint B}
    (h : Cleared objects prefixes c) (hless : Fewer prefixes objects objects') :
    Cleared objects' prefixes c where
  before j hj p hp := (h.before j hj p hp).fewer (List.mem_of_getElem? hp) hless
  after p t hp ht k hk hu := h.after p t hp ht k (hless p (List.mem_of_getElem? hp) k hk hu) hu

/-- These are the prefixes that were sent for the task. -/
def Sent (s : Store B) (id : String) (prefixes : List String) : Prop :=
  ∃ i ∈ s.enqueued, i.taskId = id ∧ i.prefixes = prefixes

/-- A snapshot of a row: its prefixes are those that were sent to the queue, and its checkpoint
    stands for the truth. -/
structure Sound (s : Store B) (task : Task B) : Prop where
  sent : Sent s task.id task.prefixes
  cleared : Cleared s.objects task.prefixes task.start

structure Inv (s : Store B) : Prop where
  unique : ∀ i ∈ s.enqueued, ∀ j ∈ s.enqueued, i.taskId = j.taskId → i = j
  sent : ∀ id ∈ s.persisted, ∃ i ∈ s.enqueued, i.taskId = id
  row : ∀ id task, s.rows id = some task → task.id = id ∧ Sound s task
  /-- A row is gone only when its prefixes are finished. -/
  gone : ∀ i ∈ s.enqueued, i.taskId ∈ s.persisted → s.rows i.taskId = none →
    Finished s.objects i.prefixes
  acked : ∀ i, some i ∈ s.acked → i.valid B = true → i.taskId ∈ s.persisted

/-- What all do: nothing that was sent or stored is taken back, and no object appears under a
    prefix whose cleanup was sent. -/
structure Shrinks (s t : Store B) : Prop where
  enqueued : s.enqueued ⊆ t.enqueued
  persisted : s.persisted ⊆ t.persisted
  objects : ∀ i ∈ s.enqueued, Fewer i.prefixes s.objects t.objects

variable {id : String} {s : Store B}

theorem Sent.enqueued (h : Sent s id prefixes) {enqueued : Set Intent}
    (hsub : s.enqueued ⊆ enqueued) :
    Sent { s with enqueued } id prefixes :=
  have ⟨i, hi, hsent⟩ := h
  ⟨i, hsub hi, hsent⟩

theorem Sent.fewer (h : Sent s id prefixes) {objects : Set B.Key}
    (hless : ∀ i ∈ s.enqueued, Fewer i.prefixes s.objects objects) :
    Fewer prefixes s.objects objects := by
  obtain ⟨i, hi, -, rfl⟩ := h
  exact hless i hi

variable {t : Store B}

theorem Sound.shrinks {task : Task B} (h : Sound s task) (hst : Shrinks s t) :
    Sound t task :=
  ⟨h.sent.enqueued hst.enqueued, h.cleared.fewer (h.sent.fewer hst.objects)⟩

def Rely (s t : Store B) : Prop := Shrinks s t ∧ (Inv s → Inv t)

theorem Rely.refl (s : Store B) : Rely s s :=
  ⟨⟨subset_rfl, subset_rfl, fun _ _ _ _ _ hk _ => hk⟩, id⟩

theorem Rely.trans {u : Store B} (h : Rely s t) (h' : Rely t u) : Rely s u where
  left :=
    { enqueued := h.1.enqueued.trans h'.1.enqueued
      persisted := h.1.persisted.trans h'.1.persisted
      objects := fun i hi p hp k hk hu =>
        h.1.objects i hi p hp k (h'.1.objects i (h.1.enqueued hi) p hp k hk hu) hu }
  right := h'.2 ∘ h.2

/-! ### What each change keeps -/

theorem Inv.objects (h : Inv s) {objects : Set B.Key}
    (hless : ∀ i ∈ s.enqueued, Fewer i.prefixes s.objects objects) :
    Inv { s with objects } where
  unique := h.unique
  sent := h.sent
  row id task ht :=
    have ⟨hid, hsound⟩ := h.row id task ht
    ⟨hid, hsound.sent, hsound.cleared.fewer (hsound.sent.fewer hless)⟩
  gone i hi hp hrow p hmem := (h.gone i hi hp hrow p hmem).fewer hmem (hless i hi)
  acked := h.acked

variable {intent : Intent}

theorem Inv.enqueue (h : Inv s) (hone : ∀ i ∈ s.enqueued, i.taskId = intent.taskId → i = intent) :
    Inv { s with enqueued := insert intent s.enqueued } where
  unique i hi j hj hij := by
    rcases hi with rfl | hi <;> rcases hj with rfl | hj
    · rfl
    · exact (hone j hj hij.symm).symm
    · exact hone i hi hij
    · exact h.unique i hi j hj hij
  sent id hid :=
    have ⟨i, hi, hid⟩ := h.sent id hid
    ⟨i, .inr hi, hid⟩
  row id task ht :=
    have ⟨hid, hsound⟩ := h.row id task ht
    ⟨hid, hsound.sent.enqueued fun _ => .inr, hsound.cleared⟩
  gone i hi hp hrow := by
    -- an intent for a task that was stored was sent before
    obtain ⟨j, hj, hji⟩ := h.sent _ hp
    have hij : j = i := by
      rcases hi with rfl | hi
      · exact hone j hj hji
      · exact h.unique j hj i hi hji
    exact h.gone i (hij ▸ hj) hp hrow
  acked := h.acked

variable {f : Task B → Task B}

/-- An `UPDATE` that keeps the prefixes, to a checkpoint that stands for the truth. -/
theorem Inv.update (h : Inv s) (hid : ∀ t, (f t).id = t.id)
    (hprefixes : ∀ t, (f t).prefixes = t.prefixes)
    (hclear : ∀ t, s.rows id = some t → Cleared s.objects t.prefixes (f t).start) :
    Inv (s.update id f) where
  unique := h.unique
  sent := h.sent
  row id' task ht := by
    by_cases hne : id' = id
    · subst hne
      simp only [Store.update, Function.update_self, Option.map_eq_some_iff] at ht
      obtain ⟨t, ht, rfl⟩ := ht
      obtain ⟨htid, hsound⟩ := h.row id' t ht
      refine ⟨(hid t).trans htid, ?_, ?_⟩
      · simpa [Store.update, Sent, hid, hprefixes] using hsound.sent
      · simpa [Store.update, hprefixes] using hclear t ht
    · simp only [Store.update, Function.update_of_ne hne] at ht
      exact ⟨(h.row id' task ht).1, (h.row id' task ht).2.sent, (h.row id' task ht).2.cleared⟩
  gone i hi hp hrow := by
    refine h.gone i hi hp ?_
    by_cases hne : i.taskId = id
    · simpa [Store.update, hne] using hrow
    · simpa [Store.update, Function.update_of_ne hne] using hrow
  acked := h.acked

theorem Inv.insert (h : Inv s) (now : ℕ) (hsent : intent ∈ s.enqueued) :
    Inv (s.write (.insertIntent intent now)) where
  unique := h.unique
  sent id hid := by
    rcases hid with rfl | hid
    · exact ⟨intent, hsent, rfl⟩
    · exact h.sent id hid
  row id task ht := by
    by_cases hsome : (s.rows intent.taskId).isSome
    · simp only [Store.write, hsome, if_true] at ht
      exact ⟨(h.row id task ht).1, (h.row id task ht).2.sent, (h.row id task ht).2.cleared⟩
    · simp only [Store.write, hsome, Bool.false_eq_true, if_false] at ht
      by_cases hne : id = intent.taskId
      · subst hne
        simp only [Function.update_self, Option.some.injEq] at ht
        subst ht
        -- a new row starts with nothing cleared
        exact ⟨rfl, ⟨intent, hsent, rfl, rfl⟩, fun j hj => absurd hj (Nat.not_lt_zero j),
          fun _ _ _ ht => by simp [Task.start] at ht⟩
      · rw [Function.update_of_ne hne] at ht
        exact ⟨(h.row id task ht).1, (h.row id task ht).2.sent, (h.row id task ht).2.cleared⟩
  gone i hi hp hrow := by
    by_cases hsome : (s.rows intent.taskId).isSome
    · simp only [Store.write, hsome, if_true] at hrow
      have hne : i.taskId ≠ intent.taskId := fun he => by simp [he ▸ hrow] at hsome
      exact h.gone i hi (hp.resolve_left hne) hrow
    · simp only [Store.write, hsome, Bool.false_eq_true, if_false] at hrow
      have hne : i.taskId ≠ intent.taskId := fun he => by simp [he] at hrow
      rw [Function.update_of_ne hne] at hrow
      exact h.gone i hi (hp.resolve_left hne) hrow
  acked i hi hv := .inr (h.acked i hi hv)

theorem Inv.delete (h : Inv s) (hsent : Sent s id prefixes) (hdone : Finished s.objects prefixes) :
    Inv (s.write (.deleteTaskRow id)) where
  unique := h.unique
  sent := h.sent
  row id' task ht := by
    have hne : id' ≠ id := fun he => by simp [Store.write, he] at ht
    simp only [Store.write, Function.update_of_ne hne] at ht
    exact ⟨(h.row id' task ht).1, (h.row id' task ht).2.sent, (h.row id' task ht).2.cleared⟩
  gone i hi hp hrow := by
    by_cases hne : i.taskId = id
    · obtain ⟨j, hj, hjid, rfl⟩ := hsent
      exact h.unique i hi j hj (hne.trans hjid.symm) ▸ hdone
    · exact h.gone i hi hp (by simpa [Store.write, Function.update_of_ne hne] using hrow)
  acked := h.acked

/-! ### When a call may be made -/

/-- What must be known at a call: that what it records is true. -/
def Permitted (s : Store B) : Call B → Prop
  | .write (.insertIntent intent _) => intent ∈ s.enqueued
  | .write (.saveProgress id c _) =>
    ∃ prefixes, Sent s id prefixes ∧ Cleared s.objects prefixes c
  | .write (.deleteTaskRow id) =>
    ∃ prefixes, Sent s id prefixes ∧ Finished s.objects prefixes
  | .ack (some intent) =>
    intent.valid B = true → intent.taskId ∈ s.persisted
  | _ => True

theorem Inv.touch (h : Inv s) (hid : ∀ t, (f t).id = t.id)
    (hprefixes : ∀ t, (f t).prefixes = t.prefixes) (hstart : ∀ t, (f t).start = t.start) :
    Inv (s.update id f) :=
  h.update hid hprefixes fun t ht => hstart t ▸ (h.row id t ht).2.cleared

theorem Inv.write (h : Inv s) {st : Statement B} (hp : Permitted s (.write st)) :
    Inv (s.write st) := by
  cases st with
  | insertIntent intent now => exact h.insert now hp
  | markMalformed id => exact h.touch (fun _ => rfl) (fun _ => rfl) fun _ => rfl
  | deleteTaskRow id =>
    obtain ⟨prefixes, hsent, hdone⟩ := hp
    exact h.delete hsent hdone
  | markFailure | scheduleRetry => exact h.touch (fun _ => rfl) (fun _ => rfl) fun _ => rfl
  | saveProgress id c now =>
    obtain ⟨prefixes, hsent, hclear⟩ := hp
    refine h.update (fun _ => rfl) (fun _ => rfl) fun t ht => ?_
    -- a task id belongs to one intent, so the prefixes are the row's
    obtain ⟨rfl, hsound⟩ := h.row id t ht
    obtain ⟨i, hi, hid, rfl⟩ := hsent
    obtain ⟨j, hj, hjd, hprefixes⟩ := hsound.sent
    rw [h.unique i hi j hj (hid.trans hjd.symm), hprefixes] at hclear
    simpa [Task.start] using hclear

theorem Inv.claim (h : Inv s) (id : String) (now : ℕ) : Inv (s.claim id now) := by
  simp only [Store.claim]
  split
  · exact h.touch (fun _ => rfl) (fun _ => rfl) fun _ => rfl
  · exact h

theorem Store.write_shrinks (s : Store B) (st : Statement B) : Shrinks s (s.write st) := by
  have hpersisted : s.persisted ⊆ (s.write st).persisted := by
    cases st <;> first | exact fun _ h => .inr h | exact subset_rfl
  cases st <;> exact ⟨subset_rfl, hpersisted, fun _ _ _ _ _ hk _ => hk⟩

theorem Store.claim_shrinks (s : Store B) (id : String) (now : ℕ) : Shrinks s (s.claim id now) := by
  simp only [Store.claim]
  split <;> exact ⟨subset_rfl, subset_rfl, fun _ _ _ _ _ hk _ => hk⟩

variable {c : Call B}

theorem Permitted.rely {x : (api B).Ans c} (hc : Permitted s c)
    (h : Store.Answers c s x t) : Rely s t := by
  cases h with
  | claimed _ id now => exact ⟨s.claim_shrinks id now, fun h => h.claim id now⟩
  | claimLost _ id now => exact ⟨s.claim_shrinks id now, fun h => h.claim id now⟩
  | written _ st => exact ⟨s.write_shrinks st, fun h => h.write hc⟩
  | writeLost _ st => exact ⟨s.write_shrinks st, fun h => h.write hc⟩
  | deleted _ keys count =>
    have hless (prefixes) : Fewer prefixes s.objects (s.objects \ {k | k ∈ keys}) :=
      fun _ _ _ hk _ => hk.1
    exact ⟨⟨subset_rfl, subset_rfl, fun _ _ => hless _⟩, fun h => h.objects fun _ _ => hless _⟩
  | deleteFailed hleft _ =>
    have hless (prefixes) : Fewer prefixes s.objects _ := fun _ _ _ hk _ => hleft hk
    exact ⟨⟨subset_rfl, subset_rfl, fun _ _ => hless _⟩, fun h => h.objects fun _ _ => hless _⟩
  | ack _ body =>
    refine ⟨⟨subset_rfl, subset_rfl, fun _ _ _ _ _ hk _ => hk⟩, fun h => ⟨h.unique, h.sent, ?_,
      h.gone, ?_⟩⟩
    · exact fun id task ht => ⟨(h.row id task ht).1, (h.row id task ht).2.sent,
        (h.row id task ht).2.cleared⟩
    · intro i hi
      rcases List.mem_append.1 hi with hi | hi
      · exact h.acked i hi
      · obtain rfl := List.mem_singleton.1 hi
        exact hc
  | _ => exact .refl s

theorem Store.Moves.rely (h : s.Moves t) : Rely s t := by
  cases h with
  | enqueue hone =>
    exact ⟨⟨fun _ h => .inr h, subset_rfl, fun _ _ _ _ _ hk _ => hk⟩, fun h => h.enqueue hone⟩
  | objects hless => exact ⟨⟨subset_rfl, subset_rfl, hless⟩, fun h => h.objects hless⟩

/-! ## The worker only makes permitted calls -/

/-- From the assertion `A`, whatever the others do, the program keeps the invariant. -/
abbrev Safely {α : Type} (A : Store B → Prop) (Q : Except Unit α → Store B → Prop)
    (p : Worker B α) : Prop := p.SafeFrom Store.Answers Rely Rely Q A

/-- An assertion that the others keep. -/
structure Kept (A : Store B → Prop) : Prop where
  inv : ∀ s, A s → Inv s
  stable : ∀ s t, A s → Rely s t → A t

variable {A : Store B → Prop} {α : Type} {Q : Except Unit α → Store B → Prop}

theorem Kept.and {X : Store B → Prop} (hA : Kept A)
    (hX : ∀ s t, A s → X s → Shrinks s t → X t) : Kept fun s => A s ∧ X s where
  inv s hs := hA.inv s hs.1
  stable s t hs hst := ⟨hA.stable s t hs.1 hst, hX s t hs.1 hs.2 hst.1⟩

/-- A permitted call keeps the assertion, and adds what its answer says. -/
theorem Kept.call_and (hA : Kept A) {k : (api B).Ans c → Worker B α}
    (X : (api B).Ans c → Store B → Prop) (hc : ∀ s, A s → Permitted s c)
    (hX : ∀ s x t, A s → Store.Answers c s x t → X x t)
    (hstable : ∀ x s t, A s → X x s → Shrinks s t → X x t)
    (hk : ∀ x, Kept (fun s => A s ∧ X x s) → Safely (fun s => A s ∧ X x s) Q (k x)) :
    Safely A Q (.call c k) :=
  .of_call (I := api B) hA.stable (fun s x t hs ht =>
    have hrely := (hc s hs).rely ht
    ⟨hrely, hA.stable s t hs hrely, hX s x t hs ht⟩) fun x => hk x (hA.and (hstable x))

theorem Kept.call (hA : Kept A) {k : (api B).Ans c → Worker B α}
    (hc : ∀ s, A s → Permitted s c) (hk : ∀ x, Safely A Q (k x)) : Safely A Q (.call c k) :=
  hA.call_and (fun _ _ => True) hc (fun _ _ _ _ _ => trivial) (fun _ _ _ _ _ _ => trivial)
    fun x _ => (hk x).mono fun _ hs => hs.1

/-- What follows an answer follows it only if it is no error. -/
theorem Kept.answered (hA : Kept A) {β : Type} {x : Option β} {f : β → Worker B α}
    (hQ : ∀ s, A s → Q (.error ()) s) (hf : ∀ b, x = some b → Safely A Q (f b)) :
    Safely A Q ((Cleanup.answered x).bind f) := by
  cases x with
  | none => exact .fail hA.stable hQ
  | some b => exact hf b rfl

section

variable {Q : Except Unit Outcome → Store B → Prop} (hA : Kept A) (hQ : ∀ r s, A s → Q r s)

include hA hQ

theorem write_safe {st : Statement B} (outcome : Outcome)
    (hst : ∀ s, A s → Permitted s (.write st)) : Safely A Q (write st outcome) :=
  hA.call hst fun _ => hA.answered (hQ _) fun _ _ => .ret hA.stable (hQ _)

theorem saveProgress_safe {c : Checkpoint B} (prefixes : List String)
    (h : ∀ s, A s → Sent s id prefixes ∧ Cleared s.objects prefixes c) :
    Safely A Q (saveProgress id c) :=
  hA.call (fun _ _ => trivial) fun _ => write_safe hA hQ _ fun s hs => ⟨prefixes, h s hs⟩

theorem nextPrefix_safe (task : Task B) (n count : ℕ)
    (h : ∀ s, A s → Sent s task.id task.prefixes ∧
      ∀ j < n, ∀ p, task.prefixes[j]? = some p → Emptied s.objects p) :
    Safely A Q (nextPrefix task n count) := by
  simp only [nextPrefix]
  split_ifs with hn
  · exact saveProgress_safe hA hQ task.prefixes fun s hs =>
      ⟨(h s hs).1, (h s hs).2, fun _ _ _ ht => by simp at ht⟩
  · refine write_safe hA hQ _ fun s hs => ⟨task.prefixes, (h s hs).1, fun p hp => ?_⟩
    -- every prefix stands before the index
    obtain ⟨j, hj, rfl⟩ := List.getElem_of_mem hp
    exact (h s hs).2 j (by omega) _ (List.getElem?_eq_getElem hj)

end

/-- After a page: what is left under the prefix comes after the token of the next page. -/
def Passed (s : Store B) (pre : String) (token next : Option B.Token) : Prop :=
  ∀ k ∈ s.objects, B.Under pre k → (∀ t, token = some t → B.After t k) →
    ∃ t, next = some t ∧ B.After t k

variable {pre : String}

/-- After a page whose objects are gone. -/
theorem nextToken_safe (hA : Kept A) {token : Option B.Token} {page : Page B}
    (count : ℕ) (hpage : ∀ s, A s → ∀ k ∈ s.objects, B.Under pre k →
      (∀ t, token = some t → B.After t k) → page.isTruncated = true ∧
        ∀ t, page.nextContinuationToken = some t → B.After t k) :
    Safely A (fun r s => A s ∧ ∀ a, r = .ok a → Passed s pre token a.2)
      ((nextToken page).bind fun next => .ret (count, next)) := by
  simp only [nextToken]
  split_ifs with hlast
  · cases hnext : page.nextContinuationToken with
    | none => exact .fail hA.stable fun s hs => ⟨hs, nofun⟩
    | some t =>
      refine .ret hA.stable fun s hs => ⟨hs, ?_⟩
      rintro a ⟨⟩ k hk hu hafter
      exact ⟨t, rfl, (hpage s hs k hk hu hafter).2 t hnext⟩
  · refine .ret hA.stable fun s hs => ⟨hs, ?_⟩
    rintro a ⟨⟩ k hk hu hafter
    exact absurd (hpage s hs k hk hu hafter).1 hlast

theorem deletePrefixPage_safe (hA : Kept A) (token : Option B.Token)
    (hless : ∀ s t, A s → Shrinks s t → ∀ k ∈ t.objects, B.Under pre k → k ∈ s.objects) :
    Safely A (fun r s => A s ∧ ∀ a, r = .ok a → Passed s pre token a.2)
      (deletePrefixPage pre token) := by
  refine hA.call_and (fun (page : Option (Page B)) s => ∀ p, page = some p → s.Lists pre token p)
    (fun _ _ => trivial) ?_ (fun _ s t hs hl hst p hp k hk hu =>
      hl p hp k (hless s t hs hst k hk hu) hu) fun page hlisted => ?_
  · intro s x t hs hx p hp
    cases hx with
    | listed h => obtain rfl := Option.some.inj hp; exact h
    | listFailed => cases hp
  refine hlisted.answered (fun s hs => ⟨hs.1, nofun⟩) fun p hp => ?_
  split
  · rename_i hkeys
    refine fun s hs => (nextToken_safe hlisted 0 (fun s hs k hk hu ht => ?_) s hs).mono
      fun _ _ h => ⟨h.1.1, h.2⟩
    simpa [hkeys] using hs.2 p hp k hk hu ht
  -- once they are deleted, no object of the page is left
  let gone (s : Store B) : Prop := ∀ k ∈ s.objects, B.Under pre k →
    (∀ t, token = some t → B.After t k) → k ∉ p.keys
  refine hlisted.call_and (fun (count : Option ℕ) s => count.isSome → gone s) (fun _ _ => trivial)
    ?_ (fun _ s t hs h hst hsome k hk hu => h hsome k (hless s t hs.1 hst k hk hu) hu)
    fun count hdeleted => ?_
  · intro s x t hs hx hsome
    cases hx with
    | deleted => exact fun k hk hu ht => hk.2
    | deleteFailed => cases hsome
  refine hdeleted.answered (fun s hs => ⟨hs.1.1, nofun⟩) fun n hn s hs => ?_
  refine (nextToken_safe hdeleted n (fun s hs k hk hu ht => ?_) s hs).mono
    fun _ _ h => ⟨h.1.1.1, h.2⟩
  exact (hs.1.2 p hp k hk hu ht).resolve_left (hs.2 (by simp [hn]) k hk hu ht)

/-- With a sound checkpoint, a page that was the last empties its prefix. -/
theorem Cleared.passed {c : Checkpoint B} (h : Cleared s.objects prefixes c)
    (hpre : prefixes[c.prefixIndex]? = some pre) {next : Option B.Token}
    (hp : Passed s pre c.continuationToken next) :
    ∀ k ∈ s.objects, B.Under pre k → ∃ t, next = some t ∧ B.After t k :=
  fun k hk hu => hp k hk hu fun t ht => h.after pre t hpre ht k hk hu

variable {task : Task B}

theorem processPage_safe (hA : Kept A) (htask : ∀ s, A s → Sound s task) :
    Safely A (fun _ => A) (processPage task) := by
  simp only [processPage]
  split
  · exact .fail hA.stable fun _ hs => hs
  split
  · exact nextPrefix_safe hA (fun _ _ hs => hs) task _ _ fun s hs =>
      ⟨(htask s hs).sent, (htask s hs).cleared.before⟩
  rename_i pre hpre
  -- no object appears under the prefix
  have hless (s t) (hs : A s) (hst : Shrinks s t) : ∀ k ∈ t.objects, B.Under pre k →
      k ∈ s.objects :=
    (htask s hs).sent.fewer hst.objects pre (List.mem_of_getElem? hpre)
  refine .bind (B := fun r s => A s ∧ Passed s pre task.start.continuationToken r.2) Rely.refl
    (fun s hs => (deletePrefixPage_safe hA _ hless s hs).mono fun r t h => by
      cases r with
      | ok r => exact ⟨h.1, h.2 r rfl⟩
      | error e => exact h.1) fun r => ?_
  have hpassed := hA.and (X := fun s => Passed s pre task.start.continuationToken r.2)
    fun s t hs hp hst k hk hu => hp k (hless s t hs hst k hk hu) hu
  split
  · rename_i token htoken
    split
    · exact .fail hpassed.stable fun _ hs => hs.1
    refine saveProgress_safe hpassed (fun _ _ hs => hs.1) task.prefixes fun s hs =>
      ⟨(htask s hs.1).sent, (htask s hs.1).cleared.before, fun p t hp ht k hk hu => ?_⟩
    cases hpre.symm.trans hp
    obtain ⟨t', ht', hafter⟩ := (htask s hs.1).cleared.passed hpre hs.2 k hk hu
    rw [htoken] at ht'
    exact Option.some.inj (ht'.symm.trans ht) ▸ hafter
  · rename_i hnone
    refine nextPrefix_safe hpassed (fun _ _ hs => hs.1) task _ _ fun s hs =>
      ⟨(htask s hs.1).sent, fun j hj p hp => ?_⟩
    rcases Nat.lt_succ_iff_lt_or_eq.1 hj with hj | rfl
    · exact (htask s hs.1).cleared.before j hj p hp
    · cases hpre.symm.trans hp
      intro k hk hu
      obtain ⟨t, ht, -⟩ := (htask s hs.1).cleared.passed hpre hs.2 k hk hu
      cases hnone.symm.trans ht

theorem recordFailure_safe (hA : Kept A) : Safely A (fun _ => A) (recordFailure task) := by
  simp only [recordFailure]
  split
  · exact write_safe hA (fun _ _ hs => hs) _ fun _ _ => trivial
  · exact hA.call (fun _ _ => trivial) fun _ =>
      write_safe hA (fun _ _ hs => hs) _ fun _ _ => trivial

/-- From a sound snapshot, however old, only what is true is recorded. -/
theorem processTask_safe (hA : Kept A) (htask : ∀ s, A s → Sound s task) :
    Safely A (fun _ => A) (processTask task) := by
  have hret (o : Outcome) : Safely A (fun _ => A) (.ret o) := .ret hA.stable fun _ hs => hs
  simp only [processTask]
  split
  · exact hret _
  refine hA.call (fun _ _ => trivial) fun now => ?_
  split
  · exact hret _
  refine hA.call (fun _ _ => trivial) fun claimed => hA.answered (fun _ hs => hs) fun b _ => ?_
  split
  · exact hret _
  split
  · exact write_safe hA (fun _ _ hs => hs) _ fun _ _ => trivial
  refine .bind (B := fun _ => A) Rely.refl (fun s hs => .attempt (processPage_safe hA htask s hs))
    fun r => ?_
  cases r with
  | ok o => exact hret o
  | error e => exact recordFailure_safe hA

theorem forEach_safe (hA : Kept A) (tasks : List (Task B))
    (h : ∀ task ∈ tasks, ∀ s, A s → Sound s task) :
    Safely A (fun _ => A) (.forEach tasks processTask) := by
  induction tasks with
  | nil => exact .ret hA.stable fun _ hs => hs
  | cons task tasks ih =>
    obtain ⟨htask, htasks⟩ := List.forall_mem_cons.1 h
    refine .bind (B := fun _ => A) Rely.refl (fun s hs => (processTask_safe hA htask s hs).mono
      fun r t h => by cases r <;> exact h) fun o => ?_
    refine .bind (B := fun _ => A) Rely.refl (fun s hs => (ih htasks s hs).mono
      fun r t h => by cases r <;> exact h) fun os => .ret hA.stable fun _ hs => hs

theorem kept_inv : Kept (Inv (B := B)) := ⟨fun _ h => h, fun _ _ h hst => hst.2 h⟩

theorem scheduled_safe : Safely (Inv (B := B)) (fun _ => Inv) scheduled := by
  refine kept_inv.call (fun _ _ => trivial) fun now => ?_
  refine kept_inv.call_and (fun (due : Option (List (Task B))) s => ∀ tasks, due = some tasks →
    ∀ task ∈ tasks, Sound s task) (fun _ _ => trivial) ?_ (fun _ s t _ h hst tasks ht task hmem =>
      (h tasks ht task hmem).shrinks hst) fun due hdue => ?_
  · intro s x t hs hx tasks ht task hmem
    cases hx with
    | due _ h => obtain rfl := Option.some.inj ht; exact (hs.row _ _ (h task hmem).1).2
    | dueFailed => cases ht
  refine hdue.answered (fun _ hs => hs.1) fun tasks ht s hs => ?_
  exact (forEach_safe hdue tasks (fun task hmem s hs => hs.2 tasks ht task hmem) s hs).mono
    fun _ _ h => h.1

theorem processStored_safe (hA : Kept A) (id : String) :
    Safely A (fun _ => A) (processStored id) := by
  refine hA.call_and (fun (x : Option (Option (Task B))) s =>
    ∀ task, x = some (some task) → Sound s task) (fun _ _ => trivial) ?_
    (fun _ s t _ h hst task hx => (h task hx).shrinks hst) fun x hloaded => ?_
  · intro s x t hs hx task htask
    cases hx with
    | load => exact ((hA.inv s hs).row _ _ (Option.some.inj htask)).2
    | loadFailed => cases htask
  refine hloaded.answered (fun _ hs => hs.1) fun row hrow => ?_
  cases row with
  | none => exact .ret hloaded.stable fun _ hs => hs.1
  | some task =>
    exact fun s hs => (processTask_safe hloaded (fun s hs => hs.2 task hrow) s hs).mono
      fun _ _ h => h.1

theorem queueMessage_safe : Safely (Inv (B := B)) (fun _ => Inv) queueMessage := by
  refine kept_inv.call_and (fun (body : Option Intent) s => ∀ i, body = some i →
    i ∈ s.enqueued) (fun _ _ => trivial) ?_ (fun _ _ _ _ h hst i hi => hst.enqueued (h i hi))
    fun body _ => ?_
  · intro s x t hs hx i hi
    cases hx with
    | malformed => cases hi
    | receive h => obtain rfl := Option.some.inj hi; exact h
  have hret (r : List Outcome) : Safely (Inv (B := B)) (fun _ => Inv) (.ret r) :=
    .ret kept_inv.stable fun _ hs => hs
  cases body with
  | none =>
    refine .mono (A := Inv) ?_ fun _ hs => hs.1
    exact kept_inv.call (fun _ _ => trivial) fun _ => hret _
  | some intent =>
    have hsent := kept_inv.and (X := fun s : Store B => intent ∈ s.enqueued)
      fun _ _ _ h hst => hst.enqueued h
    refine .mono (A := fun s => Inv s ∧ intent ∈ s.enqueued) ?_
      fun s hs => ⟨hs.1, hs.2 intent rfl⟩
    simp only
    split
    · rename_i hvalid
      refine .mono (A := Inv) ?_ fun _ hs => hs.1
      exact kept_inv.call (fun _ _ hv => by simp [hvalid] at hv) fun _ => hret _
    refine hsent.call (fun _ _ => trivial) fun now => ?_
    refine hsent.call_and (fun (r : Option Unit) s => r = some () → intent.taskId ∈ s.persisted)
      (fun s hs => hs.2) ?_ (fun _ _ _ _ h hst hr => hst.persisted (h hr)) fun r _ => ?_
    · intro s x t _ hx hsome
      cases hx with
      | written => exact .inl rfl
      | writeLost | writeFailed => cases hsome
    cases r with
    | none =>
      refine .mono (A := Inv) ?_ fun s hs => hs.1.1
      exact kept_inv.call (fun _ _ => trivial) fun _ => hret _
    | some r =>
      -- the row was stored, whatever becomes of it
      have hstored := kept_inv.and (X := fun s : Store B => intent.taskId ∈ s.persisted)
        fun _ _ _ h hst => hst.persisted h
      refine .mono (A := fun s => Inv s ∧ intent.taskId ∈ s.persisted) ?_
        fun s hs => ⟨hs.1.1, hs.2 rfl⟩
      refine .bind (B := fun _ s => Inv s ∧ intent.taskId ∈ s.persisted) Rely.refl
        (fun s hs => .attempt (processStored_safe hstored _ s hs)) fun outcome => ?_
      exact hstored.call (fun s hs _ => hs.2) fun _ => .ret hstored.stable fun _ hs => hs.1

/-! ## Every interleaving -/

theorem Initial.inv (h : Initial s) : Inv s := by
  obtain ⟨hrows, henq, hper, hack⟩ := h
  refine ⟨?_, ?_, ?_, ?_, ?_⟩ <;> simp [hrows, henq, hper, hack]

/-- Cron runs and messages rely on each other only for the invariant. -/
def workers : (cleanup B).RelyGuarantee Initial fun _ _ => True where
  inv := Inv
  rely _ _ := Rely
  guar _ _ := Rely
  compat _ _ _ _ := True
  inv_init _ h := h.inv
  rely_refl _ _ := Rely.refl
  rely_trans _ _ _ _ _ h h' := h.trans h'
  guar_inv _ _ _ _ hinv h := h.2 hinv
  guar_rely _ _ _ _ _ _ _ _ _ h := h
  env_inv _ _ _ _ hinv h := (Store.Moves.rely h).2 hinv
  env_rely _ _ _ _ _ _ _ h := Store.Moves.rely h
  spawn_compat _ _ _ _ _ _ _ _ _ _ := ⟨trivial, trivial⟩
  spawn_safe _ _ cron _ hinv _ _ := by
    cases cron with
    | true => exact (scheduled_safe _ hinv).mono fun _ _ _ => trivial
    | false => exact (queueMessage_safe _ hinv).mono fun _ _ _ => trivial

/-- **Cleanup forgets nothing.** In every reachable world, whatever cron runs, messages, crashes
    and failures led to it: a row carries the prefixes that were sent for its task, and all
    objects that its checkpoint passed over are deleted; a task that was stored and has no row
    any more has no object left under any of its prefixes; and only malformed messages and those
    whose task was stored are acknowledged. -/
theorem cleanup_forgets_nothing {w : World (api B) (Store B) Bool Unit (List Outcome)}
    (h : (cleanup B).Reachable Initial w) :
    (∀ id task, w.store.rows id = some task → Sent w.store id task.prefixes ∧
      Cleared w.store.objects task.prefixes task.start) ∧
    (∀ intent ∈ w.store.enqueued, intent.taskId ∈ w.store.persisted →
      w.store.rows intent.taskId = none → Finished w.store.objects intent.prefixes) ∧
    ∀ intent, some intent ∈ w.store.acked →
      intent.valid B = false ∨ intent.taskId ∈ w.store.persisted := by
  have hinv : Inv w.store := (workers.holds h).inv
  refine ⟨fun id task ht => ?_, hinv.gone, fun intent hi => ?_⟩
  · obtain ⟨rfl, hsound⟩ := hinv.row id task ht
    exact ⟨hsound.sent, hsound.cleared⟩
  · rcases hv : intent.valid B with _ | _
    · exact .inl rfl
    · exact .inr (hinv.acked intent hi hv)

def sitePrefix : String := "assets/demo/site/0123456789ab0123456789abcdef/"

def shopPrefix : String := "assets/demo/shop/0123456789ab0123456789abcdef/"

/-- A bucket in which the objects under a prefix are numbered. -/
def exampleBucket : Bucket where
  Key := String × ℕ
  Token := ℕ
  Under pre k := k.1 = pre
  After t k := t < k.2
  valid id prefixes := id = "s3cleanup:1" && prefixes = [sitePrefix, shopPrefix]

def exampleIntent : Intent where
  taskId := "s3cleanup:1"
  prefixes := [sitePrefix, shopPrefix]

/-- The row of the intent with a checkpoint that was stored at time `1`. -/
def exampleTask (checkpoint : Checkpoint exampleBucket) : Task exampleBucket where
  id := "s3cleanup:1"
  prefixes := [sitePrefix, shopPrefix]
  nextAttemptAt := some 1
  checkpoint := some checkpoint

/-- A message deletes the first of two pages of the first prefix and stores a checkpoint. A cron run
    deletes the second page, and another one the only page of the second prefix. -/
theorem cleanup_forgets_nothing_pages :
    let c : Checkpoint exampleBucket := ⟨0, some (1 : ℕ), 1, 1⟩
    (∃ w, (cleanup exampleBucket).Reachable Initial w ∧ w.store.acked = [some exampleIntent] ∧
      w.store.rows "s3cleanup:1" = some (exampleTask c) ∧
      Cleared w.store.objects [sitePrefix, shopPrefix] c) ∧
    ∃ w, (cleanup exampleBucket).Reachable Initial w ∧ w.store.rows "s3cleanup:1" = none ∧
      Finished w.store.objects [sitePrefix, shopPrefix] := by
  intro c
  let start : Store exampleBucket :=
    ⟨{(sitePrefix, 1), (sitePrefix, 2), (shopPrefix, 1)}, fun _ => none, ∅, ∅, []⟩
  have hstart : Initial start := ⟨rfl, rfl, rfl, rfl⟩
  let sent : Store exampleBucket := { start with enqueued := insert exampleIntent start.enqueued }
  have hsent : (cleanup exampleBucket).Reachable Initial ⟨sent, fun _ => none⟩ :=
    .step (.init hstart) trivial (.env () (.enqueue (by simp [start])))
  have hreceive : Store.Answers Call.receive sent (some exampleIntent) sent := .receive (.inl rfl)
  have hne : sitePrefix ≠ shopPrefix := by decide
  -- The pages, as they are listed whatever of the objects is still there.
  have first {s : Store exampleBucket} (hs : s.objects ⊆ start.objects) :
      s.Lists sitePrefix none ⟨[(sitePrefix, (1 : ℕ))], true, some (1 : ℕ)⟩ := by
    intro k hk hu _
    rcases hs hk with rfl | rfl | rfl
    · exact .inl (.head _)
    · exact .inr ⟨rfl, fun t ht => Option.some.inj ht ▸ Nat.lt_succ_self 1⟩
    · exact absurd hu.symm hne
  have second {s : Store exampleBucket} (hs : s.objects ⊆ start.objects) :
      s.Lists sitePrefix (some (1 : ℕ)) ⟨[(sitePrefix, (2 : ℕ))], false, none⟩ := by
    intro k hk hu ht
    rcases hs hk with rfl | rfl | rfl
    · exact absurd (ht _ rfl) (Nat.lt_irrefl 1)
    · exact .inl (.head _)
    · exact absurd hu.symm hne
  have third {s : Store exampleBucket} (hs : s.objects ⊆ start.objects) :
      s.Lists shopPrefix none ⟨[(shopPrefix, (1 : ℕ))], false, none⟩ := by
    intro k hk hu _
    rcases hs hk with rfl | rfl | rfl
    · exact absurd hu hne
    · exact absurd hu hne
    · exact .inl (.head _)
  have hdue (c : Checkpoint exampleBucket) {s : Store exampleBucket}
      (hs : s.rows "s3cleanup:1" = some (exampleTask c)) :
      Store.Answers (.listDueTasks 1 cronBatch) s (some [exampleTask c]) s :=
    .due (by simp [cronBatch]) <| List.forall_mem_singleton.2 
      ⟨hs, by simp [Store.claimable, exampleTask, hs]⟩
  have hmessage : (queueMessage (B := exampleBucket)).Runs Store.Answers sent (.ret [.retry]) _ :=
    .call hreceive <| .call (.now _ 0) <| .call (.written _ _) <| .call (.load _ _) <|
      .call (.now _ 0) <| .call (.claimed _ _ 0) <| .call (.listed (first fun _ h => h)) <|
      .call (.deleted _ _ 1) <| .call (.now _ 1) <| .call (.written _ _) <| .call (.ack _ _) .refl
  have hw : (cleanup exampleBucket).Reachable Initial _ := System.ReachableWhen.steps hsent
    (.start (i := 0) (k := false) (fun _ _ _ _ => trivial) .refl rfl trivial hmessage)
  refine ⟨⟨_, hw, rfl, rfl, ((cleanup_forgets_nothing hw).1 "s3cleanup:1" _ rfl).2⟩, ?_⟩
  have hw' : (cleanup exampleBucket).Reachable Initial _ := System.ReachableWhen.steps hw
    (.start (i := 1) (k := true) (fun _ _ _ _ => trivial) .refl rfl trivial <| by
      exact .call (.now _ 1) <| .call (hdue c rfl) <| .call (.now _ 1) <| .call (.claimed _ _ 1) <|
        .call (.listed (second fun _ h => h.1)) <| .call (.deleted _ _ 1) <| .call (.now _ 1) <|
        .call (.written _ _) .refl)
  have hw'' : (cleanup exampleBucket).Reachable Initial _ := System.ReachableWhen.steps hw'
    (.start (i := 2) (k := true) (fun _ _ _ _ => trivial) .refl rfl trivial <| by
      exact .call (.now _ 1) <| .call (hdue ⟨1, none, 0, 2⟩ rfl) <| .call (.now _ 1) <|
        .call (.claimed _ _ 1) <| .call (.listed (third fun _ h => h.1.1)) <|
        .call (.deleted _ _ 1) <| .call (.written _ _) .refl)
  exact ⟨_, hw'', rfl, (cleanup_forgets_nothing hw'').2.1 exampleIntent (.inl rfl) (.inl rfl) rfl⟩

end Wdl.S3.Cleanup
