import Wdl.Base.Machine
import Mathlib.Data.List.Nodup
import Mathlib.Data.Prod.Lex

/-!
# The admission of ready members

A tick samples the ready members of its shards and starts at most `batchSize` calls for
them, `concurrency` at a time. A call may answer that it found no free permit: its
member is then deferred, and nothing more is started until the calls in flight have
drained. If some of them gave permits back in the meantime, the deferred members are put
back in front of the queue, and each permit that was given back pays for one more start.

The loop is a machine: an event starts the first candidate, completes one of the calls
in flight with some result, or, once nothing is in flight, goes through the queue again.
The members of the queue are told apart by their place in it, as the same member may
be sampled twice.

* `machine_terminates`: no run of the loop is infinite, whatever the calls answer;
* `Accounts` relates the state of the loop to its events, and `accounts_of_run` is the
  run lemma;
* `ready_admission_terminates_and_accounts` gathers what a run guarantees.
-/

namespace Wdl.Workflow.Admission

open Machine List

/-- What bounds one admission. -/
structure ReadyAdmissionConfig where
  /-- How many candidates may be started, not counting those without a permit. -/
  batchSize : ℕ
  /-- How many calls may be in flight. -/
  concurrency : ℕ

/-- What a call tells the loop. -/
inductive ReadyAdmissionControl
  | «continue» | stop | capacityUnavailable | capacityReleased
  deriving DecidableEq

/-- What a call returns: its share of the counters, and what it tells the loop. -/
structure ReadyAdmissionOutcome (C : Type) where
  /-- What the call counted. -/
  counters : C
  /-- What the loop does next. -/
  control : ReadyAdmissionControl
  deriving DecidableEq

/-- A sampled member of the ready set of a shard, with its place in the queue. -/
structure Candidate where
  /-- Its place in the queue. -/
  place : ℕ
  /-- The shard it was sampled from. -/
  shard : ℕ
  /-- The member. -/
  member : String
  deriving DecidableEq

/-- The sampled members as candidates. -/
def enqueue (queue : List (ℕ × String)) : List Candidate :=
  queue.zipIdx.map fun q => ⟨q.2, q.1.1, q.1.2⟩

/-- The local variables of the loop; `C` is what it counts, `ε` the errors of the calls. -/
structure Loop (C ε : Type) where
  /-- What is still to be started. -/
  candidates : List Candidate
  /-- The calls that have not completed. -/
  inFlight : List Candidate := []
  /-- The candidates that found no permit since the queue was last restored. -/
  deferred : List Candidate := []
  /-- The candidates started, without those that found no permit. -/
  startedCount : ℕ := 0
  /-- A call found no permit. -/
  capacityBlocked : Bool := false
  /-- The permits given back since the last time they were spent on starts. -/
  capacityReleased : ℕ := 0
  /-- How many starts are left, once the permits given back pay for them. -/
  capacityRetryLimit : Option ℕ := none
  /-- A call said to stop, or failed. -/
  stopAfterCurrentBatch : Bool := false
  /-- The first error of a call. -/
  firstError : Option ε := none
  /-- What was counted so far. -/
  counters : C
  /-- The shards with a started candidate. -/
  touchedShards : List ℕ := []
  /-- The shards with a failed call. -/
  errorShards : List ℕ := []

/-- What the loop returns. -/
structure ReadyAdmissionRun (C ε : Type) where
  /-- What was counted. -/
  counters : C
  /-- The first error of a call. -/
  error : Option ε
  /-- Candidates are left that found no permit. -/
  capacityBlocked : Bool
  /-- The shards with a started candidate. -/
  touchedShards : List ℕ
  /-- The shards with a failed call. -/
  errorShards : List ℕ

/-- What happens in the loop. -/
inductive Event (C ε : Type)
  /-- The first candidate is started. -/
  | start (c : Candidate)
  /-- A call in flight completes. -/
  | complete (c : Candidate) (result : Except ε (ReadyAdmissionOutcome C))
  /-- The deferred candidates return to the queue. -/
  | requeue
  /-- The permits given back pay for more starts. -/
  | refund

/-- What a result tells the loop, the counters with it, and the first error with it. -/
def applyReadyAdmissionResult {C ε : Type} (merge : C → C → C)
    (result : Except ε (ReadyAdmissionOutcome C)) (counters : C) (firstError : Option ε) :
    ReadyAdmissionControl × C × Option ε :=
  match result with
  | .ok outcome => (outcome.control, merge counters outcome.counters, firstError)
  | .error e => (.stop, counters, firstError.or (some e))

/-- A list of shards with one more, unless it is there. -/
def addShard (shards : List ℕ) (shard : ℕ) : List ℕ :=
  if shard ∈ shards then shards else shards ++ [shard]

variable {C ε : Type}

namespace Loop

/-- The loop does not go on: a call failed, or said to stop. -/
def stopped (s : Loop C ε) : Bool := s.firstError.isSome || s.stopAfterCurrentBatch

/-- The condition of the inner loop, which starts the candidates. -/
def admits (cfg : ReadyAdmissionConfig) (s : Loop C ε) : Bool :=
  !s.stopped && !s.capacityBlocked && s.capacityRetryLimit.all (0 < ·)
    && decide (s.inFlight.length < max cfg.concurrency 1)
    && decide (s.startedCount < cfg.batchSize)

/-- The inner loop is done, and the loop waits for a call to complete. -/
def waits (cfg : ReadyAdmissionConfig) (s : Loop C ε) : Bool :=
  !s.admits cfg || s.candidates.isEmpty

/-- Nothing is in flight, and permits given back may pay for more starts. -/
def drained (cfg : ReadyAdmissionConfig) (s : Loop C ε) : Bool :=
  s.waits cfg && s.inFlight.isEmpty && !s.stopped && decide (0 < s.capacityReleased)
    && decide (s.startedCount < cfg.batchSize)

/-- Start a candidate, the rest of the queue being `rest`. -/
def begin (s : Loop C ε) (c : Candidate) (rest : List Candidate) : Loop C ε :=
  { s with
    candidates := rest
    touchedShards := addShard s.touchedShards c.shard
    startedCount := s.startedCount + 1
    capacityRetryLimit := s.capacityRetryLimit.map (· - 1)
    inFlight := s.inFlight ++ [c] }

/-- What a completed call tells the loop is done. -/
def obey (s : Loop C ε) (c : Candidate) : ReadyAdmissionControl → Loop C ε
  | .«continue» => s
  | .stop => { s with stopAfterCurrentBatch := true }
  | .capacityUnavailable =>
    { s with
      startedCount := s.startedCount - 1
      capacityBlocked := true
      deferred := s.deferred ++ [c] }
  | .capacityReleased => { s with capacityReleased := s.capacityReleased + 1 }

/-- A call in flight has completed. -/
def finish (merge : C → C → C) (s : Loop C ε) (c : Candidate)
    (result : Except ε (ReadyAdmissionOutcome C)) : Loop C ε :=
  let r := applyReadyAdmissionResult merge result s.counters s.firstError
  { s with
    inFlight := s.inFlight.erase c
    errorShards := if result.isOk then s.errorShards else addShard s.errorShards c.shard
    counters := r.2.1
    firstError := r.2.2 }.obey c r.1

/-- The deferred candidates return to the front of the queue. Each permit that was
    given back funds one start. -/
def requeue (s : Loop C ε) : Loop C ε :=
  { s with
    candidates := s.deferred ++ s.candidates
    deferred := []
    capacityBlocked := false
    capacityRetryLimit := some s.capacityReleased
    capacityReleased := 0 }

/-- The permits that were given back fund as many starts. -/
def refund (s : Loop C ε) : Loop C ε :=
  { s with capacityRetryLimit := some s.capacityReleased, capacityReleased := 0 }

/-- What the loop returns when it ends. -/
def result (s : Loop C ε) : ReadyAdmissionRun C ε where
  counters := s.counters
  error := s.firstError
  capacityBlocked := !s.stopped && (s.capacityBlocked || (s.capacityRetryLimit == some 0
    && (!s.candidates.isEmpty || !s.deferred.isEmpty)))
  touchedShards := s.touchedShards
  errorShards := s.errorShards

end Loop

/-- The loop after an event, if the event is possible. -/
def next (cfg : ReadyAdmissionConfig) (merge : C → C → C) (s : Loop C ε) :
    Event C ε → Option (Loop C ε)
  | .start c =>
    if s.admits cfg ∧ s.candidates.head? = some c then some (s.begin c s.candidates.tail)
    else none
  | .complete c result =>
    if s.waits cfg ∧ c ∈ s.inFlight then some (s.finish merge c result) else none
  | .requeue => if s.drained cfg ∧ s.capacityBlocked then some s.requeue else none
  | .refund =>
    if s.drained cfg ∧ ¬s.capacityBlocked ∧ s.capacityRetryLimit.isSome then some s.refund
    else none

/-- The loop ends: nothing is in flight, and it does not go through the queue again. -/
def Loop.ended (cfg : ReadyAdmissionConfig) (s : Loop C ε) : Bool :=
  s.waits cfg && s.inFlight.isEmpty
    && !(s.drained cfg && (s.capacityBlocked || s.capacityRetryLimit.isSome))

/-- The loop over a queue of sampled members. -/
def runReadyAdmission (cfg : ReadyAdmissionConfig) (queue : List (ℕ × String)) (counters : C)
    (merge : C → C → C) : Machine (Loop C ε) (Event C ε) where
  start := { candidates := enqueue queue, counters }
  next := next cfg merge

/-! ## What an event does -/

/-- What a result tells the loop. An error stops it. -/
def controlOf : Except ε (ReadyAdmissionOutcome C) → ReadyAdmissionControl
  | .ok outcome => outcome.control
  | .error _ => .stop

theorem applyReadyAdmissionResult_control (merge : C → C → C)
    (result : Except ε (ReadyAdmissionOutcome C)) (counters : C) (firstError : Option ε) :
    (applyReadyAdmissionResult merge result counters firstError).1 = controlOf result := by
  cases result <;> rfl

/-- The loop and what is left to do in it: the candidates, by where they are, and the
    permits. The other variables of the loop only count, or report. -/
inductive Step (cfg : ReadyAdmissionConfig) (s : Loop C ε) : Event C ε → Loop C ε → Prop
  | start (c : Candidate) (rest : List Candidate) (ha : s.admits cfg)
      (hc : s.candidates = c :: rest) : Step cfg s (.start c) (s.begin c rest)
  | defer (c : Candidate) (result : Except ε (ReadyAdmissionOutcome C)) (t : Loop C ε)
      (hc : c ∈ s.inFlight) (hr : controlOf result = .capacityUnavailable)
      (candidates : t.candidates = s.candidates) (inFlight : t.inFlight = s.inFlight.erase c)
      (deferred : t.deferred = s.deferred ++ [c])
      (started : t.startedCount = s.startedCount - 1) (blocked : t.capacityBlocked)
      (released : t.capacityReleased = s.capacityReleased)
      (stop : t.stopAfterCurrentBatch = s.stopAfterCurrentBatch) :
      Step cfg s (.complete c result) t
  | settle (c : Candidate) (result : Except ε (ReadyAdmissionOutcome C)) (t : Loop C ε)
      (hc : c ∈ s.inFlight) (hr : controlOf result ≠ .capacityUnavailable)
      (candidates : t.candidates = s.candidates) (inFlight : t.inFlight = s.inFlight.erase c)
      (deferred : t.deferred = s.deferred) (started : t.startedCount = s.startedCount)
      (blocked : t.capacityBlocked = s.capacityBlocked)
      (released : t.capacityReleased ≤ s.capacityReleased + 1)
      (stop : t.stopAfterCurrentBatch → s.stopAfterCurrentBatch ∨ controlOf result = .stop) :
      Step cfg s (.complete c result) t
  | requeue (hs : s.drained cfg) (hb : s.capacityBlocked) : Step cfg s .requeue s.requeue
  | refund (hs : s.drained cfg) : Step cfg s .refund s.refund

variable {c : Candidate} {cfg : ReadyAdmissionConfig} {s : Loop C ε}

theorem step_finish (merge : C → C → C) (hc : c ∈ s.inFlight)
    (result : Except ε (ReadyAdmissionOutcome C)) :
    Step cfg s (.complete c result) (s.finish merge c result) := by
  have hfinish : s.finish merge c result = { s with
      inFlight := s.inFlight.erase c
      errorShards := if result.isOk then s.errorShards else addShard s.errorShards c.shard
      counters := (applyReadyAdmissionResult merge result s.counters s.firstError).2.1
      firstError := (applyReadyAdmissionResult merge result s.counters s.firstError).2.2
      }.obey c (controlOf result) := by
    rw [← applyReadyAdmissionResult_control merge result s.counters s.firstError]
    rfl
  cases hr : controlOf result with
  | «continue» =>
    rw [hfinish, hr]
    exact .settle c result _ hc (by simp [hr]) rfl rfl rfl rfl rfl (Nat.le_succ _) .inl
  | stop =>
    rw [hfinish, hr]
    exact .settle c result _ hc (by simp [hr]) rfl rfl rfl rfl rfl (Nat.le_succ _)
      fun _ => .inr hr
  | capacityUnavailable =>
    rw [hfinish, hr]
    exact .defer c result _ hc hr rfl rfl rfl rfl rfl rfl rfl
  | capacityReleased =>
    rw [hfinish, hr]
    exact .settle c result _ hc (by simp [hr]) rfl rfl rfl rfl rfl (Nat.le_refl _) .inl

variable {e : Event C ε}

theorem step_of_next {queue : List (ℕ × String)} {counters : C}
    {merge : C → C → C} {t : Loop C ε}
    (h : (runReadyAdmission cfg queue counters merge).next s e = some t) : Step cfg s e t := by
  change next cfg merge s e = some t at h
  cases e with
  | start c =>
    obtain ⟨⟨ha, hc⟩, ⟨⟩⟩ := Option.ite_none_right_eq_some.mp h
    obtain ⟨rest, hrest⟩ := List.head?_eq_some_iff.mp hc
    have htail : s.candidates.tail = rest := by rw [hrest]; rfl
    rw [htail]
    exact .start c rest ha hrest
  | complete c result =>
    obtain ⟨⟨-, hc⟩, ht⟩ := Option.ite_none_right_eq_some.mp h
    rw [← Option.some.inj ht]
    exact step_finish merge hc result
  | requeue =>
    obtain ⟨⟨hs, hb⟩, ⟨⟩⟩ := Option.ite_none_right_eq_some.mp h
    exact .requeue hs hb
  | refund =>
    obtain ⟨⟨hs, -⟩, ⟨⟩⟩ := Option.ite_none_right_eq_some.mp h
    exact .refund hs

/-! ## Termination -/

namespace Loop

/-- The candidates that are not settled. -/
def unsettled (s : Loop C ε) : ℕ :=
  s.candidates.length + s.inFlight.length + s.deferred.length

/-- What decreases. A call that gives a permit back settles its candidate, so a settled
    candidate or a spent permit never increases the sum of the two; a start moves
    a candidate on, and so does a call that finds no permit. -/
def measure (s : Loop C ε) : ℕ ×ₗ ℕ ×ₗ ℕ :=
  toLex (s.unsettled + s.capacityReleased,
    toLex (s.unsettled, 2 * s.candidates.length + s.inFlight.length))

end Loop

theorem measure_lt {t : Loop C ε}
    (h : t.unsettled + t.capacityReleased < s.unsettled + s.capacityReleased ∨
      (t.unsettled + t.capacityReleased = s.unsettled + s.capacityReleased ∧
        (t.unsettled < s.unsettled ∨ (t.unsettled = s.unsettled ∧
          2 * t.candidates.length + t.inFlight.length <
            2 * s.candidates.length + s.inFlight.length)))) : t.measure < s.measure := by
  rw [Loop.measure, Loop.measure, Prod.Lex.toLex_lt_toLex, Prod.Lex.toLex_lt_toLex]
  exact h

theorem measure_decreases {t : Loop C ε} (h : Step cfg s e t) :
    t.measure < s.measure := by
  apply measure_lt
  cases h with
  | start c rest ha hc =>
    simp only [Loop.unsettled, Loop.begin, hc, length_append, length_cons,
      length_nil]
    omega
  | defer c result t hc hr candidates inFlight deferred started blocked released stop =>
    have hlen := length_erase_add_one hc
    simp only [Loop.unsettled, candidates, inFlight, deferred, released, length_append,
      length_cons, length_nil]
    omega
  | settle c result t hc hr candidates inFlight deferred started blocked released stop =>
    have hlen := length_erase_add_one hc
    simp only [Loop.unsettled, candidates, inFlight, deferred]
    omega
  | requeue hs hb =>
    simp only [Loop.drained, Bool.and_eq_true, decide_eq_true_eq] at hs
    simp only [Loop.unsettled, Loop.requeue, length_append, length_nil]
    omega
  | refund hs =>
    simp only [Loop.drained, Bool.and_eq_true, decide_eq_true_eq] at hs
    simp only [Loop.unsettled, Loop.refund]
    omega

theorem machine_terminates (cfg : ReadyAdmissionConfig) (queue : List (ℕ × String))
    (counters : C) (merge : C → C → C) :
    (runReadyAdmission (ε := ε) cfg queue counters merge).Terminates :=
  terminates_of_decreasing wellFounded_lt Loop.measure fun _ _ _ h =>
    measure_decreases (step_of_next h)

/-! ## What the events say of the candidates -/

/-- The candidate an event is about. -/
def Event.candidate : Event C ε → Option Candidate
  | .start c | .complete c _ => some c
  | .requeue | .refund => none

/-- The candidate that an event settles, by an answer other than that there is no permit. -/
def Event.settles : Event C ε → Option Candidate
  | .complete c result => if controlOf result = .capacityUnavailable then none else some c
  | _ => none

/-- The candidates that were settled, in order. -/
def settled (log : List (Event C ε)) : List Candidate := log.filterMap Event.settles

/-- The last event about a candidate. -/
def lastAbout (c : Candidate) (log : List (Event C ε)) : Option (Event C ε) :=
  (log.filter fun e => e.candidate = some c).getLast?

/-- The candidates reported to have found no permit, with one more event. The
    queue is restored with them, and the reports start again. -/
def Event.report (reports : List Candidate) : Event C ε → List Candidate
  | .complete c result =>
    if controlOf result = .capacityUnavailable then reports ++ [c] else reports
  | .requeue => []
  | _ => reports

/-- The candidates that were reported to have found no permit since the queue was last
    restored, in the order of the reports. -/
def reported (log : List (Event C ε)) : List Candidate := log.foldl Event.report []

/-- The last answer for a candidate, if it was started at all, is that there is no permit. -/
def AwaitsPermit (c : Candidate) (log : List (Event C ε)) : Prop :=
  lastAbout c log = none ∨
    ∃ result, lastAbout c log = some (.complete c result) ∧
      controlOf result = .capacityUnavailable

theorem settled_snoc (log : List (Event C ε)) (e : Event C ε) :
    settled (log ++ [e]) = settled log ++ e.settles.toList := by
  cases h : e.settles <;> simp [settled, h]

theorem reported_snoc (log : List (Event C ε)) (e : Event C ε) :
    reported (log ++ [e]) = Event.report (reported log) e := by
  rw [reported, foldl_append]
  rfl

theorem lastAbout_snoc_self (log : List (Event C ε)) (h : e.candidate = some c) :
    lastAbout c (log ++ [e]) = some e := by
  rw [lastAbout, filter_append]
  simp [h]

theorem lastAbout_snoc_of_ne (log : List (Event C ε)) (h : e.candidate ≠ some c) :
    lastAbout c (log ++ [e]) = lastAbout c log := by
  simp [h, lastAbout]

variable {log : List (Event C ε)}

theorem AwaitsPermit.snoc (h : AwaitsPermit c log)
    (he : e.candidate ≠ some c) : AwaitsPermit c (log ++ [e]) := by
  rw [AwaitsPermit, lastAbout_snoc_of_ne log he]
  exact h

theorem awaitsPermit_complete (log : List (Event C ε)) {result : Except ε (ReadyAdmissionOutcome C)}
    (hr : controlOf result = .capacityUnavailable) :
    AwaitsPermit c (log ++ [.complete c result]) :=
  .inr ⟨result, lastAbout_snoc_self log rfl, hr⟩

/-! ## The accounts of the loop -/

theorem enqueue_place (queue : List (ℕ × String)) :
    (enqueue queue).map Candidate.place = range' 0 queue.length := by
  rw [enqueue, map_map, ← zipIdx_map_snd]
  rfl

theorem enqueue_nodup (queue : List (ℕ × String)) : (enqueue queue).Nodup := by
  apply List.Nodup.of_map Candidate.place
  rw [enqueue_place]
  exact nodup_range'

/-- What the state of the loop says of the events that led to it. -/
structure Accounts (cfg : ReadyAdmissionConfig) (queue : List (ℕ × String))
    (log : List (Event C ε)) (s : Loop C ε) : Prop where
  /-- Each candidate is in one place. -/
  parts : (s.candidates ++ s.inFlight ++ s.deferred ++ settled log).Perm (enqueue queue)
  /-- The candidates started are those in flight and those settled. -/
  started : s.startedCount = s.inFlight.length + (settled log).length
  /-- No more are started than the batch allows. -/
  bounded : s.startedCount ≤ cfg.batchSize
  /-- Candidates are deferred only while the loop is blocked. -/
  blocked : s.deferred ≠ [] → s.capacityBlocked
  /-- The deferred candidates are those reported. -/
  reports : s.deferred = reported log
  /-- What is to be started, now or once the queue is restored, was never started or
      found no permit. -/
  awaits : ∀ c ∈ s.candidates ++ s.deferred, AwaitsPermit c log
  /-- The loop stops because a call said so. -/
  stops : s.stopAfterCurrentBatch →
    ∃ c result, Event.complete c result ∈ log ∧ controlOf result = .stop

namespace Accounts

variable {cfg : ReadyAdmissionConfig} {queue : List (ℕ × String)} {log : List (Event C ε)}
  {s t : Loop C ε}

section

variable (h : Accounts cfg queue log s)

include h

theorem nodup :
    (s.candidates ++ s.inFlight ++ s.deferred ++ settled log).Nodup :=
  h.parts.nodup_iff.mpr (enqueue_nodup queue)

theorem settled_nodup : (settled log).Nodup :=
  h.nodup.of_append_right

theorem ne_of_inFlight {d : Candidate} (hc : c ∈ s.inFlight)
    (hd : d ∈ s.candidates ++ s.deferred) : c ≠ d := by
  rintro rfl
  have hn := h.nodup.of_append_left
  rw [append_assoc] at hn
  rcases mem_append.mp hd with hd | hd
  · exact disjoint_of_nodup_append hn hd (mem_append_left _ hc)
  · exact disjoint_of_nodup_append hn.of_append_right hc hd

theorem step_parts (hst : Step cfg s e t) :
    (t.candidates ++ t.inFlight ++ t.deferred ++ settled (log ++ [e])).Perm
      (enqueue queue) := by
  refine perm_iff_count.mpr fun a => ?_
  have ha := perm_iff_count.mp h.parts a
  simp only [count_append] at ha
  cases hst with
  | start c rest _ hc =>
    simp only [hc, count_cons] at ha
    simp only [Loop.begin, settled_snoc, Event.settles, Option.toList_none,
      count_append, count_cons, count_nil]
    omega
  | defer c result t hc hr candidates inFlight deferred =>
    have herase := (perm_cons_erase hc).count_eq a
    simp only [count_cons] at herase
    simp only [candidates, inFlight, deferred, settled_snoc, Event.settles, hr, if_pos,
      Option.toList_none, count_append, count_cons, count_nil]
    omega
  | settle c result t hc hr candidates inFlight deferred =>
    have herase := (perm_cons_erase hc).count_eq a
    simp only [count_cons] at herase
    simp only [candidates, inFlight, deferred, settled_snoc, Event.settles, hr, if_false,
      Option.toList_some, count_append, count_cons, count_nil]
    omega
  | requeue =>
    simp only [Loop.requeue, settled_snoc, Event.settles, Option.toList_none,
      count_append, count_nil]
    omega
  | refund =>
    simp only [Loop.refund, settled_snoc, Event.settles, Option.toList_none,
      count_append, count_nil]
    omega

/-- What is started is in flight or settled, and is no more than the batch allows. -/
theorem step_started (hst : Step cfg s e t) :
    t.startedCount = t.inFlight.length + (settled (log ++ [e])).length ∧
      t.startedCount ≤ cfg.batchSize := by
  have hstarted := h.started
  have hbounded := h.bounded
  rw [settled_snoc, length_append]
  cases hst with
  | start c rest ha =>
    simp only [Loop.admits, Bool.and_eq_true, decide_eq_true_eq] at ha
    simp only [Loop.begin, Event.settles, Option.toList_none, length_append,
      length_cons, length_nil]
    omega
  | defer c result t hc hr _ inFlight _ started =>
    have hlen := length_erase_add_one hc
    simp only [inFlight, started, Event.settles, hr, if_pos, Option.toList_none,
      length_nil]
    omega
  | settle c result t hc hr _ inFlight _ started =>
    have hlen := length_erase_add_one hc
    simp only [inFlight, started, Event.settles, hr, if_false, Option.toList_some,
      length_cons, length_nil]
    omega
  | requeue | refund => exact ⟨hstarted, hbounded⟩

theorem step_reports (hst : Step cfg s e t) :
    t.deferred = reported (log ++ [e]) ∧ (t.deferred ≠ [] → t.capacityBlocked) := by
  rw [reported_snoc, ← h.reports]
  cases hst with
  | start => exact ⟨rfl, h.blocked⟩
  | defer c result t _ hr _ _ deferred _ blocked =>
    exact ⟨by rw [deferred, Event.report, if_pos hr], fun _ => blocked⟩
  | settle c result t _ hr _ _ deferred _ blocked =>
    exact ⟨by rw [deferred, Event.report, if_neg hr], by rw [deferred, blocked]; exact h.blocked⟩
  | requeue => exact ⟨rfl, fun hd => absurd rfl hd⟩
  | refund => exact ⟨rfl, h.blocked⟩

theorem step_awaits (hst : Step cfg s e t) :
    ∀ d ∈ t.candidates ++ t.deferred, AwaitsPermit d (log ++ [e]) := by
  intro d hd
  cases hst with
  | start c rest _ hc =>
    have hmem : d ∈ s.candidates ++ s.deferred := by
      rw [hc]
      exact mem_cons_of_mem _ hd
    refine (h.awaits d hmem).snoc fun he => ?_
    -- The candidate that is started occurs only once.
    have hn := h.nodup.of_append_left
    rw [hc, append_assoc, cons_append, nodup_cons, Option.some.inj he] at hn
    refine hn.1 ?_
    rcases mem_append.mp hd with hd | hd
    · exact mem_append_left _ hd
    · exact mem_append_right _ (mem_append_right _ hd)
  | defer c result t hc hr candidates _ deferred =>
    by_cases hcd : c = d
    · exact hcd ▸ awaitsPermit_complete log hr
    · refine (h.awaits d ?_).snoc fun he => hcd (Option.some.inj he)
      rw [candidates, deferred, ← append_assoc] at hd
      rcases mem_append.mp hd with hd | hd
      · exact hd
      · exact absurd (mem_singleton.mp hd).symm hcd
  | settle c result t hc _ candidates _ deferred =>
    rw [candidates, deferred] at hd
    exact (h.awaits d hd).snoc fun he => h.ne_of_inFlight hc hd (Option.some.inj he)
  | requeue =>
    rw [Loop.requeue, append_nil] at hd
    exact (h.awaits d (mem_append.mpr (mem_append.mp hd).symm)).snoc (Option.some_ne_none d).symm
  | refund => exact (h.awaits d hd).snoc (Option.some_ne_none d).symm

theorem step_stops (hst : Step cfg s e t)
    (ht : t.stopAfterCurrentBatch) :
    ∃ c result, Event.complete c result ∈ log ++ [e] ∧ controlOf result = .stop := by
  have hkept : s.stopAfterCurrentBatch →
      ∃ c result, Event.complete c result ∈ log ++ [e] ∧ controlOf result = .stop := by
    intro hs
    obtain ⟨c, result, hmem, hstop⟩ := h.stops hs
    exact ⟨c, result, mem_append_left _ hmem, hstop⟩
  cases hst with
  | start => exact hkept ht
  | defer c result t _ _ _ _ _ _ _ _ stop => exact hkept (stop ▸ ht)
  | settle c result t _ _ _ _ _ _ _ _ stop =>
    rcases stop ht with hs | hs
    · exact hkept hs
    · exact ⟨c, result, mem_append_right _ (mem_singleton_self _), hs⟩
  | requeue | refund => exact hkept ht

/-- The accounts are kept by each event. -/
theorem step (hst : Step cfg s e t) :
    Accounts cfg queue (log ++ [e]) t where
  parts := h.step_parts hst
  started := (h.step_started hst).1
  bounded := (h.step_started hst).2
  blocked := (h.step_reports hst).2
  reports := (h.step_reports hst).1
  awaits := h.step_awaits hst
  stops := h.step_stops hst

end

end Accounts

variable {cfg : ReadyAdmissionConfig} {queue : List (ℕ × String)} {counters : C}
  {merge : C → C → C}

theorem accounts_start :
    Accounts (ε := ε) cfg queue [] (runReadyAdmission cfg queue counters merge).start where
  parts := by
    rw [runReadyAdmission, settled, filterMap_nil, append_nil, append_nil,
      append_nil]
  started := rfl
  bounded := Nat.zero_le _
  blocked := fun h => absurd rfl h
  reports := rfl
  awaits := fun _ _ => .inl rfl
  stops := fun h => absurd h Bool.false_ne_true

theorem accounts_of_run (h : (runReadyAdmission cfg queue counters merge).run log = some s) :
    Accounts cfg queue log s :=
  run_induction (P := Accounts cfg queue) accounts_start
    (fun _ _ _ _ _ hm he => hm.step (step_of_next he)) log s h

/-! ## The order of the retries -/

/-- In each wave the candidates that find no permit are reported in the order of the queue. -/
def ReportsInOrder (log : List (Event C ε)) : Prop :=
  ∀ before, before <+: log → (reported before).Pairwise (·.place < ·.place)

/-- The queue has its original order, and what was taken from it came before what is left. -/
structure Sorted (s : Loop C ε) : Prop where
  queue : s.candidates.Pairwise (·.place < ·.place)
  taken : ∀ c ∈ s.inFlight ++ s.deferred, ∀ d ∈ s.candidates, c.place < d.place

theorem sorted_start :
    Sorted (ε := ε) (runReadyAdmission cfg queue counters merge).start := by
  refine ⟨pairwise_map.mp ?_, fun c hc => absurd hc not_mem_nil⟩
  rw [runReadyAdmission, enqueue_place]
  exact pairwise_lt_range'

theorem Sorted.waiting (h : Sorted s) (hdef : s.deferred.Pairwise (·.place < ·.place)) :
    (s.deferred ++ s.candidates).Pairwise (·.place < ·.place) :=
  pairwise_append.mpr ⟨hdef, h.queue, fun c hc => h.taken c (mem_append_right _ hc)⟩

theorem Sorted.step {t : Loop C ε} (h : Sorted s)
    (hdef : s.deferred.Pairwise (·.place < ·.place)) (hst : Step cfg s e t) : Sorted t := by
  cases hst with
  | start c rest _ hc =>
    have hqueue := hc ▸ h.queue
    refine ⟨(pairwise_cons.mp hqueue).2, fun d hd x hx => ?_⟩
    rw [Loop.begin, append_assoc, mem_append, singleton_append, mem_cons] at hd
    rcases hd with hd | rfl | hd
    · exact h.taken d (mem_append_left _ hd) x (hc ▸ mem_cons_of_mem _ hx)
    · exact (pairwise_cons.mp hqueue).1 x hx
    · exact h.taken d (mem_append_right _ hd) x (hc ▸ mem_cons_of_mem _ hx)
  | defer c result t hc _ candidates inFlight deferred =>
    refine ⟨candidates ▸ h.queue, ?_⟩
    rw [candidates, inFlight, deferred]
    refine fun d hd => h.taken d ?_
    rcases mem_append.mp hd with hd | hd
    · exact mem_append_left _ (mem_of_mem_erase hd)
    · rcases mem_append.mp hd with hd | hd
      · exact mem_append_right _ hd
      · exact mem_append_left _ (mem_singleton.mp hd ▸ hc)
  | settle c result t _ _ candidates inFlight deferred =>
    refine ⟨candidates ▸ h.queue, ?_⟩
    rw [candidates, inFlight, deferred]
    exact fun d hd => h.taken d ((erase_sublist.append_right _).subset hd)
  | requeue hs =>
    -- nothing is in flight, and the deferred candidates stand before the rest of the queue
    have hidle : s.inFlight = [] := by
      simp only [Loop.drained, Bool.and_eq_true, List.isEmpty_iff] at hs
      exact hs.1.1.1.2
    refine ⟨h.waiting hdef, fun c hc => ?_⟩
    rw [Loop.requeue, hidle] at hc
    exact absurd hc not_mem_nil
  | refund => exact ⟨h.queue, h.taken⟩

/-- When each wave reports in the order of the queue, the queue keeps its order. -/
theorem sorted_of_run (h : (runReadyAdmission cfg queue counters merge).run log = some s)
    (hlog : ReportsInOrder log) : Sorted s := by
  refine run_induction (P := fun log s => ReportsInOrder log → Sorted s) (fun _ => sorted_start)
    (fun log m e t hrun hm he hlog => ?_) log s h hlog
  have hbefore : ReportsInOrder log := fun before hb => hlog before (hb.trans (prefix_append _ _))
  refine (hm hbefore).step ?_ (step_of_next he)
  rw [(accounts_of_run hrun).reports]
  exact hbefore log (prefix_refl log)

/-! ## The end of the loop -/

/-- A loop that has not ended goes on: it starts a candidate, it goes through the queue
    again, or it takes whatever the calls in flight answer. -/
theorem goes_on (h : s.ended cfg = false) :
    (∃ c t, next cfg merge s (.start c) = some t) ∨
      (∃ t, next cfg merge s .requeue = some t) ∨ (∃ t, next cfg merge s .refund = some t) ∨
      (s.inFlight ≠ [] ∧ ∀ c ∈ s.inFlight, ∀ result,
        ∃ t, next cfg merge s (.complete c result) = some t) := by
  cases hw : s.waits cfg with
  | false =>
    simp only [Loop.waits, Bool.or_eq_false_iff, Bool.not_eq_false', isEmpty_eq_false_iff]
      at hw
    obtain ⟨c, rest, hc⟩ := exists_cons_of_ne_nil hw.2
    exact .inl ⟨c, _, if_pos ⟨hw.1, by rw [hc]; rfl⟩⟩
  | true =>
    by_cases hf : s.inFlight = []
    · have hd : s.drained cfg ∧ (s.capacityBlocked = false → s.capacityRetryLimit.isSome) := by
        simpa [Loop.ended, hw, hf] using h
      cases hb : s.capacityBlocked with
      | true => exact .inr (.inl ⟨_, if_pos ⟨hd.1, hb⟩⟩)
      | false => exact .inr (.inr (.inl ⟨_, if_pos ⟨hd.1, by simp [hb], hd.2 hb⟩⟩))
    · exact .inr (.inr (.inr ⟨hf, fun c hc result => ⟨_, if_pos ⟨hw, hc⟩⟩⟩))

/-- Once it has ended, nothing more happens. -/
theorem next_of_ended (h : s.ended cfg = true) (e : Event C ε) :
    next cfg merge s e = none := by
  simp only [Loop.ended, Bool.and_eq_true, Bool.not_eq_true', List.isEmpty_iff] at h
  obtain ⟨⟨hw, hf⟩, hd⟩ := h
  cases e with
  | start c =>
    refine if_neg ?_
    rintro ⟨ha, hc⟩
    simp only [Loop.waits, ha, Bool.not_true, Bool.false_or, List.isEmpty_iff] at hw
    rw [hw] at hc
    cases hc
  | complete c result =>
    refine if_neg ?_
    rintro ⟨-, hc⟩
    rw [hf] at hc
    cases hc
  | requeue =>
    refine if_neg ?_
    rintro ⟨hs, hb⟩
    simp [hs, hb] at hd
  | refund =>
    refine if_neg ?_
    rintro ⟨hs, -, hl⟩
    simp [hs, hl] at hd

/-- A loop that ends without a stop and is not blocked has used up its queue or its batch. -/
theorem used_up (h : Accounts cfg queue log s)
    (hend : s.ended cfg) (hstop : s.stopped = false) (hb : s.result.capacityBlocked = false) :
    s.inFlight = [] ∧ s.deferred = [] ∧ (s.candidates = [] ∨ s.startedCount = cfg.batchSize) := by
  simp only [Loop.ended, Bool.and_eq_true, List.isEmpty_iff] at hend
  obtain ⟨⟨hw, hf⟩, -⟩ := hend
  simp only [Loop.result, hstop, Bool.not_false, Bool.true_and, Bool.or_eq_false_iff] at hb
  have hdef : s.deferred = [] := by
    by_contra hd
    exact Bool.false_ne_true (hb.1.symm.trans (h.blocked hd))
  refine ⟨hf, hdef, ?_⟩
  by_cases hc : s.candidates = []
  · exact .inl hc
  refine .inr (le_antisymm h.bounded ?_)
  -- The inner loop has stopped before the end of the queue, and only the batch is left as
  -- the reason: the permits are not used up, or the loop would report that it is blocked.
  have hpermits : s.capacityRetryLimit.all (0 < ·) = true := by
    cases hl : s.capacityRetryLimit with
    | none => rfl
    | some n => simpa [hl, hc, Nat.pos_iff_ne_zero] using hb.2
  have hidle : s.inFlight.length < max cfg.concurrency 1 := by
    rw [hf]
    exact lt_of_lt_of_le Nat.zero_lt_one (le_max_right _ _)
  simpa [Loop.waits, Loop.admits, hstop, hb.1, hpermits, hidle, hc] using hw

/-- The candidates of the queue that got an answer other than that there is no permit. -/
def settledOf (queue : List (ℕ × String)) (log : List (Event C ε)) : List Candidate :=
  (enqueue queue).filter (· ∈ settled log)

theorem Accounts.settledOf_length (h : Accounts cfg queue log s) :
    (settledOf queue log).length = (settled log).length := by
  refine List.Perm.length_eq ((perm_ext_iff_of_nodup ?_ h.settled_nodup).mpr fun c => ?_)
  · exact (enqueue_nodup queue).filter _
  · rw [settledOf, mem_filter, decide_eq_true_eq, and_iff_right_iff_imp]
    exact fun hc => h.parts.subset (mem_append_right _ hc)

/-- Whatever the calls answer and in whatever order they complete, the loop ends. A candidate
    is started again only when its last answer is that there is no permit, and it is
    settled at most once; no more candidates are settled than the batch allows; what waits, with
    those that found no permit in front, keeps the original order of the queue when they are
    reported in it. If the loop ends with no error, no stop and without reporting that it is
    blocked, the queue is settled, or the batch used up. -/
theorem ready_admission_terminates_and_accounts (cfg : ReadyAdmissionConfig)
    (queue : List (ℕ × String)) (counters : C) (merge : C → C → C) :
    (runReadyAdmission (ε := ε) cfg queue counters merge).Terminates ∧
    ∀ (log : List (Event C ε)) (s : Loop C ε),
      (runReadyAdmission cfg queue counters merge).run log = some s →
      (s.ended cfg = false →
        (∃ c t, next cfg merge s (.start c) = some t) ∨
        (∃ t, next cfg merge s .requeue = some t) ∨ (∃ t, next cfg merge s .refund = some t) ∨
        (s.inFlight ≠ [] ∧ ∀ c ∈ s.inFlight, ∀ result,
          ∃ t, next cfg merge s (.complete c result) = some t)) ∧
      (s.ended cfg = true → ∀ e, next cfg merge s e = none) ∧
      (∀ before after c, log = before ++ .start c :: after → AwaitsPermit c before) ∧
      (∀ c, (settled log).count c ≤ 1) ∧
      (settledOf queue log).length ≤ cfg.batchSize ∧
      (ReportsInOrder log → (s.deferred ++ s.candidates).Pairwise (·.place < ·.place)) ∧
      (s.ended cfg = true → s.result.error = none →
        (∀ c result, .complete c result ∈ log → controlOf result ≠ .stop) →
        s.result.capacityBlocked = false →
        settledOf queue log = enqueue queue ∨
          (settledOf queue log).length = cfg.batchSize) := by
  refine ⟨machine_terminates cfg queue counters merge, fun log s h => ?_⟩
  have hacc := accounts_of_run h
  refine ⟨goes_on, next_of_ended, ?_, nodup_iff_count_le_one.mp hacc.settled_nodup, ?_,
    fun hlog => (sorted_of_run h hlog).waiting (hacc.reports ▸ hlog log (prefix_refl log)),
    fun hend herr hlog hb => ?_⟩
  · rintro before after c rfl
    obtain ⟨m, hm, hrest⟩ := run_append_iff.mp h
    obtain ⟨t, hstart, -⟩ := runFrom_cons_iff.mp hrest
    have hstep : Step cfg m (.start c) t := step_of_next hstart
    cases hstep with
    | start _ rest _ hc =>
      refine (accounts_of_run hm).awaits c (mem_append_left _ ?_)
      rw [hc]
      exact mem_cons_self
  · rw [hacc.settledOf_length]
    have hstarted := hacc.started
    have hbounded := hacc.bounded
    omega
  · have hstop : s.stopped = false := by
      refine Bool.or_eq_false_iff.mpr ⟨?_, Bool.eq_false_iff.mpr fun hs => ?_⟩
      · exact Option.isSome_eq_false_iff.mpr (Option.isNone_iff_eq_none.mpr herr)
      · obtain ⟨c, result, hmem, hr⟩ := hacc.stops hs
        exact hlog c result hmem hr
    obtain ⟨hf, hdef, hc | hc⟩ := used_up hacc hend hstop hb
    · refine .inl (filter_eq_self.mpr fun c hmem => decide_eq_true ?_)
      have hmem := hacc.parts.symm.subset hmem
      rwa [hc, hf, hdef] at hmem
    · refine .inr ?_
      have hstarted := hacc.started
      rw [hf, length_nil, Nat.zero_add] at hstarted
      rw [hacc.settledOf_length, ← hstarted, hc]

/-- A wave of two calls: the first finds no permit, the second gives one back, and
    the first is started again. -/
def waveLog : List (Event ℕ String) :=
  [.start ⟨0, 3, "a"⟩, .start ⟨1, 5, "b"⟩,
    .complete ⟨0, 3, "a"⟩ (.ok ⟨0, .capacityUnavailable⟩),
    .complete ⟨1, 5, "b"⟩ (.ok ⟨1, .capacityReleased⟩),
    .requeue, .start ⟨0, 3, "a"⟩, .complete ⟨0, 3, "a"⟩ (.ok ⟨1, .«continue»⟩)]

theorem ready_admission_wave :
    ∃ s, (runReadyAdmission ⟨2, 2⟩ [(3, "a"), (5, "b")] 0 (· + ·)).run waveLog = some s ∧
      s.result.counters = 2 ∧ s.ended ⟨2, 2⟩ = true ∧
      (settledOf [(3, "a"), (5, "b")] waveLog = enqueue [(3, "a"), (5, "b")] ∨
        (settledOf [(3, "a"), (5, "b")] waveLog).length = 2) := by
  refine ⟨_, rfl, rfl, rfl, ?_⟩
  refine ((ready_admission_terminates_and_accounts ⟨2, 2⟩ [(3, "a"), (5, "b")] 0 (· + ·)).2
    waveLog _ rfl).2.2.2.2.2.2 rfl rfl ?_ rfl
  intro c result hmem hstop
  simp only [waveLog, mem_cons, reduceCtorEq, Event.complete.injEq, not_mem_nil,
    false_or, or_false] at hmem
  rcases hmem with ⟨-, rfl⟩ | ⟨-, rfl⟩ | ⟨-, rfl⟩ <;> cases hstop

end Wdl.Workflow.Admission
