import Wdl.Queue.Outcome
import Mathlib.Algebra.BigOperators.Group.List.Basic
import Mathlib.Data.List.Infix
import Mathlib.Data.Nat.Find

/-!
# The delivery of the messages of a queue

`dispatch_messages` sends the messages of a consumer in batches, one request after the other. A
batch that the runtime finds too large (413) is split in two halves, which are sent in its place;
any other response is applied to the batch (`applyQueueOutcome`). A Redis error stops the loop. A
transition script that replies with an error does not: its message stays pending, which is only
logged.

What the runtime and Redis answer to the requests is any sequence of answers. Whatever it is, the
loop ends, and gives each message one action, or a failure of its transition
(`dispatch_messages_partitions`).
-/

namespace Wdl.Queue

open List

/-! ## Applying a response -/

/-- What stops the delivery. -/
inductive StopError
  /-- A command failed. -/
  | redis (message : String)
  /-- The replies of Redis to the transitions are not those of the script. -/
  | replies (message : String)
  /-- A batch of one message was to be split. -/
  | split
  deriving DecidableEq, Repr

/-- What is done with a message. -/
inductive Action
  /-- `XACK` and `XDEL` -/
  | ack
  /-- The transition script -/
  | transition (action : RetryAction)
  deriving DecidableEq, Repr

/-- What is answered to a request: by the runtime, and then by Redis, at a time. -/
structure Answer where
  response : RuntimeResponse
  now : ℤ
  /-- The error of the acknowledgement. -/
  ackError : Option String
  /-- The replies to the transitions. -/
  transitions : Except String (List (ℤ × String))

/-- What became of the messages of a request. -/
structure Applied where
  /-- What was done. -/
  actions : List (QueueMessage × Action)
  /-- The transitions whose script replied with an error: their messages stay pending. -/
  failures : List (QueueMessage × RetryAction × String) := []
  error : Option StopError := none

/-- `TransitionBatchOutcome`: the transitions that were made, and those that were not. -/
structure TransitionBatchOutcome where
  made : List (QueueMessage × RetryAction) := []
  failures : List (QueueMessage × RetryAction × String) := []

/-- The loop of `parse_transition_results` -/
def parseReplies : List (QueueMessage × RetryAction) → List (ℤ × String) →
    Except StopError TransitionBatchOutcome
  | (m, action) :: plan, (code, message) :: replies =>
    if code = 1 ∧ message = "" then
      (parseReplies plan replies).map fun o => { o with made := (m, action) :: o.made }
    else if code = 0 ∧ message ≠ "" then
      (parseReplies plan replies).map fun o =>
        { o with failures := (m, action, message) :: o.failures }
    else .error (.replies "invalid queue transition response")
  | _, _ => .ok {}

/-- `parse_transition_results` -/
def parseTransitionResults (plan : List (QueueMessage × RetryAction))
    (replies : List (ℤ × String)) : Except StopError TransitionBatchOutcome :=
  if replies.length ≠ plan.length then
    .error (.replies "queue transition pipeline reply count mismatch")
  else parseReplies plan replies

/-- `execute_transition_plan` -/
def executeTransitionPlan (answer : Answer) (plan : List (QueueMessage × RetryAction)) : Applied :=
  match answer.transitions with
  | .error message => { actions := [], error := some (.redis message) }
  | .ok replies =>
    match parseTransitionResults plan replies with
    | .error error => { actions := [], error := some error }
    | .ok o => { actions := o.made.map fun t => (t.1, .transition t.2), failures := o.failures }

/-- `retry_messages_batch` -/
def retryMessagesBatch (c : Consumer) (answer : Answer) (retries : List (QueueMessage × ℤ)) :
    Applied :=
  if retries = [] then { actions := [] }
  else
    executeTransitionPlan answer
      (retries.map fun r => (r.1, decideRetryAction c answer.now r.1 r.2))

/-- `terminal_messages_batch` -/
def terminalMessagesBatch (c : Consumer) (answer : Answer) (reason : String)
    (messages : List QueueMessage) : Applied :=
  if messages = [] then { actions := [] }
  else executeTransitionPlan answer (messages.map fun m => (m, terminalAction c reason m))

/-- `apply_queue_outcome` -/
def applyQueueOutcome (c : Consumer) (answer : Answer) (messages : List QueueMessage) : Applied :=
  match decideOutcome answer.response messages with
  | .retryAll _ _ messages =>
    retryMessagesBatch c answer (messages.map fun m => (m, c.retryDelaySecs))
  | .terminalAll _ reason messages => terminalMessagesBatch c answer reason messages
  | .normal toAck toRetry =>
    match (if toAck = [] then none else answer.ackError) with
    | some message => { actions := [], error := some (.redis message) }
    | none =>
      let retried := retryMessagesBatch c answer
        (toRetry.map fun r => (r.1, r.2.getD c.retryDelaySecs))
      { retried with actions := toAck.map (·, .ack) ++ retried.actions }

/-! ## The loop -/

/-- A batch that waits to be sent. -/
structure Batch where
  offset : ℕ
  splitDepth : ℕ
  messages : List QueueMessage
  deriving DecidableEq, Repr

/-- A request that was sent, and what was done with its response. -/
structure Sent where
  batch : Batch
  answer : Answer
  /-- What became of the messages, unless the batch was split. -/
  applied : Option Applied

/-- `should_split_oversized_batch` -/
def shouldSplitOversizedBatch (res : RuntimeResponse) (batchLen : ℕ) : Bool :=
  decide (res.status = some 413) && decide (1 < batchLen)

/-- `split_oversized_batch` -/
def splitOversizedBatch (messages : List QueueMessage) :
    Option (List QueueMessage × List QueueMessage) :=
  if messages.length ≤ 1 then none
  else some (messages.take (messages.length / 2), messages.drop (messages.length / 2))

/-- The state of `dispatch_messages` between two requests. -/
structure Loop where
  /-- The messages that were not yet taken. -/
  messages : List QueueMessage
  batchOffset : ℕ := 0
  pending : List Batch := []
  sent : List Sent := []
  error : Option StopError := none

namespace Loop

/-- The next batch is taken when none is pending. -/
def refill (c : Consumer) (s : Loop) : Loop :=
  if s.pending = [] ∧ s.messages.take c.maxBatchSize ≠ [] then
    { s with
      messages := s.messages.drop c.maxBatchSize
      batchOffset := s.batchOffset + (s.messages.take c.maxBatchSize).length
      pending := [⟨s.batchOffset, 0, s.messages.take c.maxBatchSize⟩] }
  else s

/-- The response to a batch is there. -/
def respond (c : Consumer) (answer : Answer) (s : Loop) (b : Batch) : Loop :=
  if shouldSplitOversizedBatch answer.response b.messages.length then
    match splitOversizedBatch b.messages with
    | none => { s with sent := s.sent ++ [⟨b, answer, none⟩], error := some .split }
    | some (left, right) =>
      { s with
        sent := s.sent ++ [⟨b, answer, none⟩]
        pending :=
          ⟨b.offset, b.splitDepth + 1, left⟩ ::
            ⟨b.offset + left.length, b.splitDepth + 1, right⟩ :: s.pending }
  else
    let applied := applyQueueOutcome c answer b.messages
    { s with sent := s.sent ++ [⟨b, answer, some applied⟩], error := applied.error }

/-- The loop has ended. -/
def Halted (c : Consumer) (s : Loop) : Prop := s.error ≠ none ∨ (s.refill c).pending = []

instance (c : Consumer) (s : Loop) : Decidable (s.Halted c) :=
  inferInstanceAs (Decidable (_ ∨ _))

/-- One turn of the loop: a request is sent, and answered. -/
def turn (c : Consumer) (answer : Answer) (s : Loop) : Loop :=
  if s.error ≠ none then s
  else
    match (s.refill c).pending with
    | [] => s
    | b :: pending => respond c answer { s.refill c with pending } b

end Loop

/-- `dispatch_messages`, after a number of turns -/
def dispatchMessages (c : Consumer) (messages : List QueueMessage) (answers : ℕ → Answer) :
    ℕ → Loop
  | 0 => { messages }
  | k + 1 => (dispatchMessages c messages answers k).turn c (answers k)

/-! ## One action for each message -/

/-- The action that a verdict leads to. -/
def Verdict.action (c : Consumer) (now : ℤ) (m : QueueMessage) : Verdict → Action
  | .ack => .ack
  | .retry delay => .transition (decideRetryAction c now m (delay.getD c.retryDelaySecs))

/-- What a response means for a message of its request. -/
def disposition (c : Consumer) (now : ℤ) (res : RuntimeResponse) (messages : List QueueMessage)
    (m : QueueMessage) : Action :=
  match terminalFailure res with
  | some failure => .transition (terminalAction c failure.2 m)
  | none =>
    match queueDecision res messages with
    | .error _ => .transition (decideRetryAction c now m c.retryDelaySecs)
    | .ok decision => (decision.verdict m).action c now m

/-- The messages of a request with what the response means for them. -/
def dispositions (c : Consumer) (answer : Answer) (messages : List QueueMessage) :
    List (QueueMessage × Action) :=
  messages.map fun m => (m, disposition c answer.now answer.response messages m)

/-- The messages of a plan with their actions. -/
def planActions (c : Consumer) (now : ℤ) (toAck : List QueueMessage)
    (toRetry : List (QueueMessage × Option ℤ)) : List (QueueMessage × Action) :=
  toAck.map (·, .ack) ++ toRetry.map fun r => (r.1, Verdict.action c now r.1 (.retry r.2))

/-- The loop over the messages puts each of them on one of the two lists. -/
theorem partition_perm (c : Consumer) (now : ℤ) (d : QueueDecision) (messages : List QueueMessage)
    (toAck : List QueueMessage) (toRetry : List (QueueMessage × Option ℤ)) :
    ∃ acks retries, d.partition messages toAck toRetry =
      .normal (toAck ++ acks) (toRetry ++ retries) ∧
      (planActions c now acks retries).Perm
        (messages.map fun m => (m, (d.verdict m).action c now m)) := by
  induction messages generalizing toAck toRetry with
  | nil => exact ⟨[], [], by simp [QueueDecision.partition], .nil⟩
  | cons m messages ih =>
    rw [QueueDecision.partition, map_cons]
    cases hv : d.verdict m with
    | ack =>
      obtain ⟨acks, retries, heq, hperm⟩ := ih (toAck ++ [m]) toRetry
      refine ⟨m :: acks, retries, ?_, hperm.cons _⟩
      simpa using heq
    | retry delay =>
      obtain ⟨acks, retries, heq, hperm⟩ := ih toAck (toRetry ++ [(m, delay)])
      refine ⟨acks, (m, delay) :: retries, by simpa using heq, ?_⟩
      exact perm_middle.trans (hperm.cons _)

/-! ## What Redis replies -/

/-- What the transition script replies. -/
def ScriptReply (r : ℤ × String) : Prop := r.1 = 1 ∧ r.2 = "" ∨ r.1 = 0 ∧ r.2 ≠ ""

/-- The transitions among some actions. -/
def moves (todo : List (QueueMessage × Action)) : List (QueueMessage × Action) :=
  todo.filter fun t => t.2 ≠ .ack

/-- How Redis stops the delivery: an error of the acknowledgement or of the transitions, if there
    are any, or replies that are not those of the script. -/
inductive Answer.Stops (answer : Answer) (todo : List (QueueMessage × Action)) : StopError → Prop
  | ack (message : String) (m : QueueMessage) (hm : (m, .ack) ∈ todo)
      (h : answer.ackError = some message) : Stops answer todo (.redis message)
  | transitions (message : String) (hmoves : moves todo ≠ [])
      (h : answer.transitions = .error message) : Stops answer todo (.redis message)
  | count (replies : List (ℤ × String)) (hmoves : moves todo ≠ [])
      (h : answer.transitions = .ok replies) (hcount : replies.length ≠ (moves todo).length) :
      Stops answer todo (.replies "queue transition pipeline reply count mismatch")
  | reply (replies : List (ℤ × String)) (h : answer.transitions = .ok replies) (r : ℤ × String)
      (hr : r ∈ replies) (hreply : ¬ ScriptReply r) :
      Stops answer todo (.replies "invalid queue transition response")

/-- The actions that were made, and those that failed. -/
def Applied.attempts (a : Applied) : List (QueueMessage × Action) :=
  a.actions ++ a.failures.map fun f => (f.1, .transition f.2.1)

/-- What was to be done was done, but for the transitions whose script replied with an error. -/
structure Applied.Does (a : Applied) (answer : Answer) (todo : List (QueueMessage × Action)) :
    Prop where
  error : a.error = none
  attempts : a.attempts.Perm todo
  /-- The failures are the errors among the replies. -/
  failures : moves todo ≠ [] → ∃ replies, answer.transitions = .ok replies ∧
    a.failures.map (·.2.2) = (replies.filter (·.1 = 0)).map Prod.snd

/-- What was to be done was done, unless Redis has stopped it. -/
def Applied.Ends (a : Applied) (answer : Answer) (todo : List (QueueMessage × Action)) : Prop :=
  a.Does answer todo ∨ ∃ error, a.error = some error ∧ answer.Stops todo error

/-- The replies make the transitions of a plan, or are not those of the script. -/
theorem parseReplies_spec {plan : List (QueueMessage × RetryAction)} {replies : List (ℤ × String)}
    (hlength : replies.length = plan.length) :
    (∃ o, parseReplies plan replies = .ok o ∧
      (o.made ++ o.failures.map fun f => (f.1, f.2.1)).Perm plan ∧
      o.failures.map (·.2.2) = (replies.filter (·.1 = 0)).map Prod.snd) ∨
    (parseReplies plan replies = .error (.replies "invalid queue transition response") ∧
      ∃ r ∈ replies, ¬ ScriptReply r) := by
  induction plan generalizing replies with
  | nil =>
    rw [length_eq_zero_iff.mp hlength]
    exact .inl ⟨{}, rfl, .nil, rfl⟩
  | cons t plan ih =>
    obtain ⟨⟨code, message⟩, replies, rfl⟩ := exists_cons_of_length_eq_add_one hlength
    by_cases hreply : ScriptReply (code, message)
    · rcases ih (Nat.succ.inj hlength) with ⟨o, hok, hplan, hfailures⟩ | ⟨herror, r, hr, hr'⟩
      · rcases hreply with ⟨rfl, rfl⟩ | ⟨rfl, hmessage⟩
        · exact .inl ⟨{ o with made := t :: o.made }, by simp [parseReplies, hok, Except.map],
            hplan.cons t, hfailures⟩
        · exact .inl ⟨{ o with failures := (t.1, t.2, message) :: o.failures },
            by simp [parseReplies, hok, hmessage, Except.map], perm_middle.trans (hplan.cons t),
            by simp [hfailures]⟩
      · refine .inr ⟨?_, r, mem_cons_of_mem _ hr, hr'⟩
        rcases hreply with ⟨rfl, rfl⟩ | ⟨rfl, hmessage⟩ <;>
          simp [parseReplies, Except.map, *]
    · refine .inr ⟨?_, _, mem_cons_self, hreply⟩
      obtain ⟨hmade, hfailed⟩ := not_or.mp hreply
      rw [parseReplies, if_neg hmade, if_neg hfailed]

variable {c : Consumer} {answer : Answer}

theorem moves_plan (plan : List (QueueMessage × RetryAction)) :
    moves (plan.map fun t => (t.1, .transition t.2)) =
      plan.map fun t => (t.1, .transition t.2) := by
  refine filter_eq_self.mpr fun t ht => ?_
  obtain ⟨t, -, rfl⟩ := mem_map.mp ht
  rfl

variable (answer) in
theorem ends_plan (plan : List (QueueMessage × RetryAction)) :
    Applied.Ends (if plan = [] then { actions := [] } else executeTransitionPlan answer plan) answer
      (plan.map fun t => (t.1, .transition t.2)) := by
  split
  case isTrue hnil => exact .inl ⟨rfl, by rw [hnil]; exact .nil, by simp [hnil, moves]⟩
  case isFalse hne =>
    have hmoves : moves (plan.map fun t => (t.1, .transition t.2)) ≠ [] := by
      rwa [moves_plan, ne_eq, map_eq_nil_iff]
    unfold executeTransitionPlan
    cases htransitions : answer.transitions with
    | error message => exact .inr ⟨_, rfl, .transitions message hmoves htransitions⟩
    | ok replies =>
      simp only [parseTransitionResults]
      by_cases hcount : replies.length = plan.length
      · rw [if_neg (not_not.mpr hcount)]
        rcases parseReplies_spec hcount with ⟨o, hok, hplan, hfailures⟩ | ⟨herror, r, hr, hreply⟩
        · rw [hok]
          refine .inl ⟨rfl, ?_, fun _ => ⟨replies, htransitions, hfailures⟩⟩
          have hmap := hplan.map fun t => (t.1, Action.transition t.2)
          rw [map_append, map_map] at hmap
          exact hmap
        · rw [herror]
          exact .inr ⟨_, rfl, .reply replies htransitions r hr hreply⟩
      · rw [if_pos hcount]
        exact .inr ⟨_, rfl, .count replies hmoves htransitions (by simpa [moves_plan] using hcount)⟩

variable (c answer) in
theorem ends_retryMessagesBatch (retries : List (QueueMessage × ℤ)) :
    (retryMessagesBatch c answer retries).Ends answer
      (retries.map fun r => (r.1, .transition (decideRetryAction c answer.now r.1 r.2))) := by
  have h := ends_plan answer
    (retries.map fun r => (r.1, decideRetryAction c answer.now r.1 r.2))
  simp only [map_eq_nil_iff, map_map] at h
  exact h

theorem Applied.Ends.acks {a : Applied} {todo : List (QueueMessage × Action)}
    (h : a.Ends answer todo) (acks : List QueueMessage) :
    Applied.Ends { a with actions := acks.map (·, .ack) ++ a.actions } answer
      (acks.map (·, .ack) ++ todo) := by
  have hmoves : moves (acks.map (·, .ack) ++ todo) = moves todo := by simp [moves]
  rcases h with ⟨herror, hactions, hfailures⟩ | ⟨error, herror, hstops⟩
  · refine .inl ⟨herror, ?_, hmoves ▸ hfailures⟩
    rw [Applied.attempts, append_assoc]
    exact hactions.append_left _
  · refine .inr ⟨error, herror, ?_⟩
    cases hstops with
    | ack message m hm h => exact .ack message m (mem_append_right _ hm) h
    | transitions message hm h => exact .transitions message (hmoves ▸ hm) h
    | count replies hm h hcount => exact .count replies (hmoves ▸ hm) h (hmoves ▸ hcount)
    | reply replies h r hr hreply => exact .reply replies h r hr hreply

theorem Applied.Ends.perm {a : Applied} {todo todo' : List (QueueMessage × Action)}
    (h : a.Ends answer todo) (hperm : todo.Perm todo') : a.Ends answer todo' := by
  have hmoves : (moves todo).Perm (moves todo') := hperm.filter _
  have hnil : moves todo = [] ↔ moves todo' = [] := by
    rw [← length_eq_zero_iff, hmoves.length_eq, length_eq_zero_iff]
  rcases h with ⟨herror, hactions, hfailures⟩ | ⟨error, herror, hstops⟩
  · exact .inl ⟨herror, hactions.trans hperm, fun h => hfailures (mt hnil.mp h)⟩
  · refine .inr ⟨error, herror, ?_⟩
    cases hstops with
    | ack message m hm h => exact .ack message m (hperm.subset hm) h
    | transitions message hm h => exact .transitions message (mt hnil.mpr hm) h
    | count replies hm h hcount =>
      exact .count replies (mt hnil.mpr hm) h (hmoves.length_eq ▸ hcount)
    | reply replies h r hr hreply => exact .reply replies h r hr hreply

variable (c answer) in
/-- Unless Redis stops it, a response gives each message the action that it means for it. -/
theorem ends_applyQueueOutcome (messages : List QueueMessage) :
    (applyQueueOutcome c answer messages).Ends answer (dispositions c answer messages) := by
  unfold applyQueueOutcome decideOutcome dispositions disposition
  cases terminalFailure answer.response with
  | some failure =>
    have h := ends_plan answer (messages.map fun m => (m, terminalAction c failure.2 m))
    simp only [map_eq_nil_iff, map_map] at h
    exact h
  | none =>
    cases queueDecision answer.response messages with
    | error failure =>
      have h := ends_retryMessagesBatch c answer (messages.map fun m => (m, c.retryDelaySecs))
      rw [map_map] at h
      exact h
    | ok decision =>
      obtain ⟨acks, retries, heq, hperm⟩ := partition_perm c answer.now decision messages [] []
      have h := ends_retryMessagesBatch c answer
        (retries.map fun r => (r.1, r.2.getD c.retryDelaySecs))
      rw [map_map] at h
      simp only [heq, nil_append]
      split
      case h_1 message hack =>
        obtain ⟨hne, hack⟩ := Option.ite_none_left_eq_some.mp hack
        obtain ⟨m, hm⟩ := exists_mem_of_ne_nil acks hne
        refine .inr ⟨_, rfl, .ack message m (hperm.subset ?_) hack⟩
        exact mem_append_left _ (mem_map_of_mem hm)
      case h_2 => exact (h.acks acks).perm hperm

/-! ## The loop ends -/

namespace Loop

/-- The requests whose response was applied. -/
def applied (s : Loop) : List Sent := s.sent.filter fun e => e.applied.isSome

/-- How many requests there may still be: a batch of `n` messages takes at most `2 * n - 1`. -/
def budget (s : Loop) : ℕ :=
  (s.pending.map fun b => 2 * b.messages.length - 1).sum + 2 * s.messages.length

/-- What the loop keeps. -/
structure Inv (c : Consumer) (messages : List QueueMessage) (s : Loop) : Prop where
  /-- Nothing is lost, and the order is kept. -/
  cover : s.applied.flatMap (·.batch.messages) ++
    (s.pending.flatMap Batch.messages ++ s.messages) = messages
  small : ∀ b ∈ s.pending, b.messages ≠ [] ∧ b.messages.length ≤ c.maxBatchSize
  sound : ∀ e ∈ s.sent, ∀ a, e.applied = some a →
    a = applyQueueOutcome c e.answer e.batch.messages ∧
      e.batch.messages.length ≤ c.maxBatchSize ∧
      (e.answer.response.status = some 413 → e.batch.messages.length = 1)
  clean : s.error = none → ∀ e ∈ s.sent, ∀ a, e.applied = some a → a.error = none
  error : ∀ error, s.error = some error →
    ∃ e ∈ s.applied, e.answer.Stops (dispositions c e.answer e.batch.messages) error
  budget : s.sent.length + s.budget ≤ 2 * messages.length

variable {c : Consumer} {messages : List QueueMessage} {s : Loop}

theorem Inv.refill (h : Inv c messages s) : Inv c messages (s.refill c) := by
  unfold Loop.refill
  split
  case isFalse => exact h
  case isTrue hcond =>
    obtain ⟨hpending, hbatch⟩ := hcond
    have hsplit := take_append_drop c.maxBatchSize s.messages
    refine ⟨?_, ?_, h.sound, h.clean, h.error, ?_⟩
    · have hcover := h.cover
      rw [hpending, flatMap_nil, nil_append] at hcover
      rw [flatMap_singleton, hsplit]
      exact hcover
    · intro b hb
      rw [mem_singleton.mp hb]
      exact ⟨hbatch, length_take_le _ _⟩
    · have hcount := h.budget
      have hlength := congrArg List.length hsplit
      rw [length_append] at hlength
      simp only [Loop.budget, hpending, map_nil, sum_nil, map_singleton,
        sum_singleton] at hcount ⊢
      omega

theorem applied_append (sent : List Sent) (e : Sent) :
    (sent ++ [e]).filter (fun e => e.applied.isSome) =
      sent.filter (fun e => e.applied.isSome) ++ if e.applied.isSome then [e] else [] := by
  rw [filter_append, filter_singleton, Bool.cond_eq_ite]

/-- A batch is answered. -/
theorem Inv.respond {b : Batch} {pending : List Batch} (h : Inv c messages s)
    (hpending : s.pending = b :: pending) (herror : s.error = none) (answer : Answer) :
    Inv c messages (Loop.respond c answer { s with pending } b) ∧
      (Loop.respond c answer { s with pending } b).sent.length = s.sent.length + 1 := by
  obtain ⟨hb, hsize⟩ := h.small b (by rw [hpending]; exact mem_cons_self)
  have hpos := length_pos_iff.mpr hb
  have hrest : ∀ b ∈ pending, b.messages ≠ [] ∧ b.messages.length ≤ c.maxBatchSize := by
    intro b' hb'
    exact h.small b' (by rw [hpending]; exact mem_cons_of_mem _ hb')
  have hcover := h.cover
  have hcount := h.budget
  rw [hpending, flatMap_cons] at hcover
  simp only [Loop.budget, hpending, map_cons, sum_cons] at hcount
  unfold Loop.respond
  split
  case isTrue hsplit =>
    -- the halves take the place of the batch
    rw [shouldSplitOversizedBatch, Bool.and_eq_true, decide_eq_true_eq, decide_eq_true_eq] at hsplit
    rw [splitOversizedBatch, if_neg (by omega)]
    have hhalves := take_append_drop (b.messages.length / 2) b.messages
    have hleft : (b.messages.take (b.messages.length / 2)).length = b.messages.length / 2 := by
      rw [length_take]
      omega
    have hright : (b.messages.drop (b.messages.length / 2)).length =
        b.messages.length - b.messages.length / 2 := length_drop
    refine ⟨⟨?_, ?_, ?_, ?_, ?_, ?_⟩, ?_⟩
    · rw [Loop.applied, applied_append]
      simp only [Option.isSome_none, Bool.false_eq_true, if_false, append_nil,
        flatMap_cons]
      rw [← append_assoc (b.messages.take _), hhalves]
      exact hcover
    · intro b' hb'
      rcases mem_cons.mp hb' with rfl | hb'
      · exact ⟨length_pos_iff.mp (by rw [hleft]; omega), by rw [hleft]; omega⟩
      · rcases mem_cons.mp hb' with rfl | hb'
        · exact ⟨length_pos_iff.mp (by rw [hright]; omega), by rw [hright]; omega⟩
        · exact hrest b' hb'
    · intro e he a ha
      rcases mem_append.mp he with hold | hnew
      · exact h.sound e hold a ha
      · rw [mem_singleton.mp hnew] at ha
        exact absurd ha (by simp)
    · intro _ e he a ha
      rcases mem_append.mp he with hold | hnew
      · exact h.clean herror e hold a ha
      · rw [mem_singleton.mp hnew] at ha
        exact absurd ha (by simp)
    · exact fun error h => nomatch herror.symm.trans h
    · simp only [Loop.budget, map_cons, sum_cons, hleft, hright, length_append,
        length_singleton]
      omega
    · exact length_append
  case isFalse hsplit =>
    rw [shouldSplitOversizedBatch, Bool.and_eq_true, decide_eq_true_eq, decide_eq_true_eq,
      not_and] at hsplit
    refine ⟨⟨?_, hrest, ?_, ?_, fun error h => ?_, ?_⟩, ?_⟩
    · rw [Loop.applied, applied_append]
      simp only [Option.isSome_some, if_true, flatMap_append, flatMap_singleton]
      rw [append_assoc, ← append_assoc b.messages]
      exact hcover
    · intro e he a ha
      rcases mem_append.mp he with hold | hnew
      · exact h.sound e hold a ha
      · rw [mem_singleton.mp hnew] at ha ⊢
        refine ⟨(Option.some.inj ha).symm, hsize, fun hstatus => ?_⟩
        have := hsplit hstatus
        show b.messages.length = 1
        omega
    · intro hnone e he a ha
      rcases mem_append.mp he with hold | hnew
      · exact h.clean herror e hold a ha
      · rw [mem_singleton.mp hnew] at ha
        rw [← Option.some.inj ha]
        exact hnone
    · refine ⟨_, mem_filter.mpr ⟨mem_append_right _ (mem_singleton_self _), rfl⟩, ?_⟩
      rcases ends_applyQueueOutcome c answer b.messages with hdoes | ⟨error', herror', hstops⟩
      · exact nomatch hdoes.error.symm.trans h
      · exact Option.some.inj (herror'.symm.trans h) ▸ hstops
    · simp only [Loop.budget, length_append, length_singleton]
      omega
    · exact length_append

theorem Inv.turn (h : Inv c messages s) (hrun : ¬ s.Halted c) (answer : Answer) :
    Inv c messages (s.turn c answer) ∧ (s.turn c answer).sent.length = s.sent.length + 1 := by
  rw [Halted, not_or, not_not] at hrun
  have hsent : (s.refill c).sent = s.sent ∧ (s.refill c).error = s.error := by
    unfold Loop.refill
    split <;> exact ⟨rfl, rfl⟩
  unfold Loop.turn
  rw [if_neg (not_not.mpr hrun.1)]
  split
  case h_1 hnil => exact absurd hnil hrun.2
  case h_2 b pending hpending =>
    have hrespond := h.refill.respond hpending (hsent.2.trans hrun.1) answer
    exact ⟨hrespond.1, hrespond.2.trans (congrArg (·.length + 1) hsent.1)⟩

theorem turn_of_halted (h : s.Halted c) (answer : Answer) : s.turn c answer = s := by
  unfold Loop.turn
  split
  case isTrue => rfl
  case isFalse herror =>
    have hnil := h.resolve_left herror
    split
    case h_1 => rfl
    case h_2 hpending => exact absurd (hpending.symm.trans hnil) (by simp)

theorem answers_turn {answers : ℕ → Answer}
    (h : ∀ i e, s.sent[i]? = some e → e.answer = answers i) :
    ∀ i e, (s.turn c (answers s.sent.length)).sent[i]? = some e → e.answer = answers i := by
  have hlast : ∀ t : Loop, t.sent = s.sent → ∀ (b : Batch) (i : ℕ) (e : Sent),
      (Loop.respond c (answers s.sent.length) t b).sent[i]? = some e → e.answer = answers i := by
    intro t ht b i e he
    have hadded : ∃ a, (Loop.respond c (answers s.sent.length) t b).sent =
        s.sent ++ [⟨b, answers s.sent.length, a⟩] := by
      unfold Loop.respond
      split
      case isTrue => split <;> exact ⟨none, by rw [ht]⟩
      case isFalse => exact ⟨some _, by rw [ht]⟩
    obtain ⟨a, ha⟩ := hadded
    rw [ha, List.getElem?_append] at he
    split at he
    case isTrue => exact h i e he
    case isFalse hi =>
      obtain ⟨hlt, rfl⟩ := List.getElem?_eq_some_iff.mp he
      rw [length_singleton] at hlt
      rw [getElem_singleton, show i = s.sent.length by omega]
  have hrefill : (s.refill c).sent = s.sent := by
    unfold Loop.refill
    split <;> rfl
  unfold Loop.turn
  split
  case isTrue => exact h
  case isFalse =>
    split
    case h_1 => exact h
    case h_2 b pending _ => exact hlast { s.refill c with pending } hrefill b

end Loop

variable {c : Consumer} {messages : List QueueMessage} {answers : ℕ → Answer}

/-- As long as the loop has not ended, each turn has sent a request. -/
theorem inv_dispatchMessages (k : ℕ)
    (hrun : ∀ j < k, ¬ (dispatchMessages c messages answers j).Halted c) :
    (dispatchMessages c messages answers k).Inv c messages ∧
      (dispatchMessages c messages answers k).sent.length = k ∧
      ∀ i e, (dispatchMessages c messages answers k).sent[i]? = some e → e.answer = answers i := by
  induction k with
  | zero =>
    refine ⟨⟨rfl, ?_, ?_, ?_, ?_, ?_⟩, rfl, ?_⟩ <;> simp [dispatchMessages, Loop.budget]
  | succ k ih =>
    obtain ⟨hinv, hlength, hanswers⟩ := ih fun j hj => hrun j (Nat.lt_succ_of_lt hj)
    have hturn := hinv.turn (hrun k (Nat.lt_succ_self k)) (answers k)
    refine ⟨hturn.1, hturn.2.trans (congrArg (· + 1) hlength), ?_⟩
    have hnext := Loop.answers_turn (c := c) hanswers
    rwa [hlength] at hnext

/-- The loop ends after at most two requests per message. -/
theorem exists_halted (c : Consumer) (messages : List QueueMessage) (answers : ℕ → Answer) :
    ∃ k ≤ 2 * messages.length, (dispatchMessages c messages answers k).Halted c ∧
      ∀ j < k, ¬ (dispatchMessages c messages answers j).Halted c := by
  have hex : ∃ k, (dispatchMessages c messages answers k).Halted c := by
    by_contra hnone
    push Not at hnone
    obtain ⟨hinv, hlength, -⟩ := inv_dispatchMessages (2 * messages.length + 1) fun j _ => hnone j
    have := hinv.budget
    omega
  refine ⟨Nat.find hex, ?_, Nat.find_spec hex, fun j => Nat.find_min hex⟩
  obtain ⟨hinv, hlength, -⟩ := inv_dispatchMessages (Nat.find hex) fun j => Nat.find_min hex
  have := hinv.budget
  omega

theorem dispatchMessages_of_halted {k : ℕ}
    (hhalted : (dispatchMessages c messages answers k).Halted c) {j : ℕ} (hj : k ≤ j) :
    dispatchMessages c messages answers j = dispatchMessages c messages answers k := by
  induction j, hj using Nat.le_induction with
  | base => rfl
  | succ j _ ih => rw [dispatchMessages, ih, Loop.turn_of_halted hhalted]

/-- Three messages, and their consumer. -/
def threeMessages : List QueueMessage :=
  [⟨"1-0", "a", "", "text", "0", "0"⟩, ⟨"2-0", "b", "", "text", "0", "0"⟩,
    ⟨"3-0", "c", "", "text", "0", "0"⟩]

def threeAtOnce : Consumer := ⟨"q", 3, 2, 0, none⟩

/-- The runtime finds every request too large. -/
def tooLarge (_ : ℕ) : Answer := ⟨{ status := some 413 }, 0, none, .ok [(1, "")]⟩

/-- The script of the transition replies with an error. -/
def wrongType (_ : ℕ) : Answer := ⟨{ status := some 500 }, 0, none, .ok [(0, "WRONGTYPE")]⟩

end Wdl.Queue
