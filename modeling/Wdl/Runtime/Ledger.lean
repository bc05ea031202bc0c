import Wdl.Runtime.StepController

/-!
# The ledger of a dispatch

What the outcome of a run depends on is a ledger: the steps with where they are, the failure
that was recorded, whether a step was suspended, whether the run has returned. A controller
changes its ledger by a few kinds of entries only (`Entry`), and everything a controller does
between two waits is a sequence of such entries. So what is true of every ledger has to be
shown once for each kind of entry:

* `Marks`: a step that the controller takes for settled has completed, as the ordinals tell the
  steps apart;
* `Honest`: whoever has thrown is accounted for. Until it is tracked it is in flight, and then a
  failure is recorded, or a step was suspended, or the run had returned before; and an
  infrastructure failure of the backend is not lost.
-/

namespace Wdl.Runtime

open Option List

/-- A step has not settled. -/
def Pc.running : Pc → Bool
  | .settled _ => false
  | .tracked _ => false
  | _ => true

/-- A step has returned. -/
def Step.Completed (s : Step) : Prop := s.pc = .settled none ∨ s.pc = .tracked none

/-- A step has neither completed nor failed for everyone to see. -/
def Step.InFlight (s : Step) : Prop := s.active = true ∧ ¬ s.Completed

/-- What the outcome depends on. -/
structure Ledger where
  ordinal : ℕ
  suspended : Bool
  runReturned : Bool
  terminal : Option (Reason × ErrorRecord)
  dependencyFrontier : List ℕ
  steps : List Step
  backendFailed : Bool

def Controller.ledger (c : Controller) : Ledger :=
  ⟨c.ordinal, c.suspended, c.runReturned, c.terminal, c.dependencyFrontier, c.steps,
    c.backendFailed⟩

variable {identity : StepIdentity}

namespace Ledger

/-! ## Entries -/

def setPc (l : Ledger) (i : ℕ) (pc : Pc) : Ledger :=
  { l with steps := l.steps.modify i fun s => { s with pc } }

def setWaiting (l : Ledger) (i : ℕ) : Ledger :=
  { l with suspended := true, steps := l.steps.modify i fun s => { s with waiting := true } }

/-- A record that `markActiveStepSettled` finds is settled. -/
def markSettled (identity : StepIdentity) (s : Step) : Step :=
  if s.active ∧ s.recordIdentity.map StepIdentity.ordinal = some identity.ordinal then
    { s with settled := true }
  else s

def markStepCompleted (l : Ledger) (identity : StepIdentity) : Ledger :=
  { l with
    dependencyFrontier :=
      (l.dependencyFrontier.filter fun o => o ∉ identity.dependencies) ++ [identity.ordinal]
    steps := l.steps.map (markSettled identity) }

/-- The failure that is recorded after another one was seen. -/
def recorded (terminal : Option (Reason × ErrorRecord)) (reason : Reason) (error : ErrorRecord) :
    Option (Reason × ErrorRecord) :=
  match terminal with
  | none => some (reason, error)
  | some (failure, e) =>
    if reason.errorClass ≠ .infrastructure ∨ failure.errorClass = .infrastructure then
      some (failure, e)
    else some (reason, error)

def remember (l : Ledger) (reason : Reason) (error : ErrorRecord) : Ledger :=
  { l with terminal := recorded l.terminal reason error }

/-- What a step has thrown is recorded, unless it was suspended or the run had returned. -/
def noteThrown (l : Ledger) : Option Reason → Ledger
  | none => l
  | some reason =>
    if reason.errorClass ≠ .suspended ∧
        (l.runReturned = false ∨ reason.errorClass = .infrastructure) then
      l.remember reason (workflowError reason)
    else l

/-- Someone is accountable for a step that was not completed. -/
def Excused (l : Ledger) : Prop := l.suspended = true ∨ l.terminal ≠ none ∨ l.runReturned = true

/-- What a controller may enter. -/
inductive Entry (l : Ledger) : Ledger → Prop
  /-- A step waits for something else. -/
  | wait {i : ℕ} {s : Step} {pc : Pc} : l.steps[i]? = some s → s.pc.running → pc.running →
      Entry l (l.setPc i pc)
  /-- A step throws; only a step that is suspended throws a suspension, or the tenant does. -/
  | throw {i : ℕ} {s : Step} {r : Reason} : l.steps[i]? = some s → s.pc.running →
      (r.errorClass = .suspended → l.Excused) → Entry l (l.setPc i (.settled (some r)))
  /-- A step throws as the backend has failed. -/
  | failBackend {i : ℕ} {s : Step} {r : Reason} : l.steps[i]? = some s → s.pc.running →
      r.errorClass = .infrastructure →
      Entry l ({ l with backendFailed := true }.setPc i (.settled (some r)))
  | complete {i : ℕ} {s : Step} : l.steps[i]? = some s → s.pc.running →
      Entry l ((s.identity.elim l l.markStepCompleted).setPc i (.settled none))
  | suspend {i : ℕ} {s : Step} {r : Reason} : l.steps[i]? = some s → s.pc.running →
      r.errorClass = .suspended → Entry l ((l.setWaiting i).setPc i (.settled (some r)))
  | track {i : ℕ} {s : Step} {thrown : Option Reason} : l.steps[i]? = some s →
      s.pc = .settled thrown → Entry l ((l.noteThrown thrown).setPc i (.tracked thrown))
  | remember (reason : Reason) (error : ErrorRecord) : Entry l (l.remember reason error)
  /-- A call takes an ordinal, and is refused. -/
  | skip : Entry l { l with ordinal := l.ordinal + 1 }
  /-- A step is called. -/
  | start {s : Step} {dependencies : List ℕ} : s.identity = some ⟨l.ordinal, dependencies⟩ →
      s.pc.running → s.settled = false →
      Entry l { l with ordinal := l.ordinal + 1, steps := l.steps ++ [s] }
  /-- A step is called that throws at once. -/
  | startFailed {s : Step} {r : Reason} : s.identity = none → s.pc = .settled (some r) →
      s.settled = false → (r.errorClass = .suspended → l.Excused) →
      Entry l { l with steps := l.steps ++ [s] }

theorem noteThrown_eq (l : Ledger) (thrown : Option Reason) :
    l.noteThrown thrown = { l with terminal := (l.noteThrown thrown).terminal } := by
  unfold noteThrown
  split
  case h_1 => rfl
  case h_2 => split <;> rfl

/-- It is not for a controller to say that the run has returned. -/
theorem Entry.runReturned {l l' : Ledger} (h : Entry l l') : l'.runReturned = l.runReturned := by
  cases h with
  | @complete i s _ _ =>
    cases hid : s.identity with
    | none => rfl
    | some identity => rfl
  | track _ _ => rw [noteThrown_eq]; rfl
  | _ => rfl

/-- A sequence of entries. -/
abbrev Entries : Ledger → Ledger → Prop := Relation.ReflTransGen Entry

theorem Entries.keeps {P : Ledger → Prop} (h : ∀ l l', Entry l l' → P l → P l') {l l' : Ledger}
    (hl : Entries l l') (hP : P l) : P l' := by
  induction hl with
  | refl => exact hP
  | tail _ hentry ih => exact h _ _ hentry ih

/-! ## The steps after an entry -/

section Steps

variable {l : Ledger} {i j : ℕ} {pc : Pc} {s t : Step}

theorem getElem?_setPc (h : (l.setPc i pc).steps[j]? = some t) :
    ∃ s, l.steps[j]? = some s ∧ t = if i = j then { s with pc } else s := by
  rw [setPc, List.getElem?_modify] at h
  obtain ⟨s, hs, rfl⟩ := map_eq_some_iff.mp h
  refine ⟨s, hs, ?_⟩
  split <;> rfl

theorem getElem?_setPc_self (h : l.steps[i]? = some s) :
    (l.setPc i pc).steps[i]? = some { s with pc } := by
  rw [setPc, List.getElem?_modify, h]
  simp

theorem getElem?_setPc_of_ne (hij : i ≠ j) :
    (l.setPc i pc).steps[j]? = l.steps[j]? := by
  rw [setPc, List.getElem?_modify]
  simp [hij]

theorem getElem?_markStepCompleted (h : (l.markStepCompleted identity).steps[j]? = some t) :
    ∃ s, l.steps[j]? = some s ∧ t = markSettled identity s := by
  rw [markStepCompleted, List.getElem?_map] at h
  obtain ⟨s, hs, rfl⟩ := map_eq_some_iff.mp h
  exact ⟨s, hs, rfl⟩

theorem getElem?_append_singleton {steps : List Step} (h : (steps ++ [s])[j]? = some t) :
    steps[j]? = some t ∨ (j = steps.length ∧ t = s) := by
  rw [List.getElem?_append] at h
  split at h
  case isTrue => exact .inl h
  case isFalse hlen =>
    obtain ⟨hj, ht⟩ := List.getElem?_eq_some_iff.mp h
    rw [length_singleton] at hj
    refine .inr ⟨by omega, ?_⟩
    rw [← ht, getElem_singleton]

end Steps

/-! ## The marks -/

/-- The controller takes a step for settled. -/
def Marked (l : Ledger) (s : Step) : Prop :=
  s.settled = true ∨ ∃ identity, s.recordIdentity = some identity ∧
    identity.ordinal ∈ l.dependencyFrontier

/-- The marks are right. -/
structure Marks (l : Ledger) : Prop where
  ordinals : ∀ (i : ℕ) (s : Step) (identity : StepIdentity), l.steps[i]? = some s →
    s.identity = some identity → identity.ordinal < l.ordinal
  frontier : ∀ o ∈ l.dependencyFrontier, o < l.ordinal
  unique : ∀ (i j : ℕ) (s t : Step) (a b : StepIdentity), l.steps[i]? = some s →
    l.steps[j]? = some t → s.identity = some a → t.identity = some b → a.ordinal = b.ordinal → i = j
  marked : ∀ (i : ℕ) (s : Step), l.steps[i]? = some s → l.Marked s → s.Completed

theorem identity_of_recordIdentity {s : Step} (h : s.recordIdentity = some identity) :
    s.identity = some identity := by
  unfold Step.recordIdentity at h
  split at h
  case isTrue => exact h
  case isFalse => cases h

theorem not_completed_of_running {s : Step} (h : s.pc.running = true) : ¬ s.Completed := by
  rintro (hpc | hpc)
  · rw [hpc] at h
    exact Bool.noConfusion h
  · rw [hpc] at h
    exact Bool.noConfusion h

section Marks

variable {l l' : Ledger} {i : ℕ} {s : Step} {pc : Pc}

section

variable (h : Marks l)

include h

/-- The steps are the old ones, with marks that are right. -/
theorem Marks.of_steps (hordinal : l.ordinal ≤ l'.ordinal)
    (hfrontier : ∀ o ∈ l'.dependencyFrontier, o < l'.ordinal)
    (hsteps : ∀ (j : ℕ) (t : Step), l'.steps[j]? = some t →
      ∃ s : Step, l.steps[j]? = some s ∧ t.identity = s.identity ∧ (l'.Marked t → t.Completed)) :
    Marks l' := by
  refine ⟨?_, hfrontier, ?_, ?_⟩
  · intro j t identity ht hid
    obtain ⟨s, hs, heq, -⟩ := hsteps j t ht
    exact (h.ordinals j s identity hs (heq ▸ hid)).trans_le hordinal
  · intro j k t u a b ht hu ha hb hab
    obtain ⟨s, hs, heq, -⟩ := hsteps j t ht
    obtain ⟨s', hs', heq', -⟩ := hsteps k u hu
    exact h.unique j k s s' a b hs hs' (heq ▸ ha) (heq' ▸ hb) hab
  · intro j t ht
    obtain ⟨s, -, -, hmarked⟩ := hsteps j t ht
    exact hmarked

theorem Marks.setPc
    (hpc : ∀ s : Step, l.steps[i]? = some s → s.Completed → { s with pc }.Completed) :
    Marks (l.setPc i pc) := by
  refine h.of_steps le_rfl h.frontier fun j t ht => ?_
  obtain ⟨s, hs, rfl⟩ := getElem?_setPc ht
  refine ⟨s, hs, ?_⟩
  split
  case isTrue hij => exact ⟨rfl, fun hm => hpc s (hij ▸ hs) (h.marked j s hs hm)⟩
  case isFalse => exact ⟨rfl, h.marked j s hs⟩

theorem Marks.setPc_of_running (hs : l.steps[i]? = some s) (hrun : s.pc.running) :
    Marks (l.setPc i pc) := by
  refine h.setPc fun t ht hc => absurd hc ?_
  rw [hs, Option.some.injEq] at ht
  exact ht ▸ not_completed_of_running hrun

theorem Marks.setWaiting (i : ℕ) : Marks (l.setWaiting i) := by
  refine h.of_steps le_rfl h.frontier fun j t ht => ?_
  rw [Ledger.setWaiting, List.getElem?_modify] at ht
  obtain ⟨s, hs, rfl⟩ := map_eq_some_iff.mp ht
  refine ⟨s, hs, ?_⟩
  split
  case isTrue => exact ⟨rfl, h.marked j s hs⟩
  case isFalse => exact ⟨rfl, h.marked j s hs⟩

/-- Only the step that completes gets its mark. -/
theorem Marks.marked_of_ne {j : ℕ} {t : Step} (hs : l.steps[i]? = some s)
    (hid : s.identity = some identity) (ht : l.steps[j]? = some t) (hij : i ≠ j)
    (hmarked : (l.markStepCompleted identity).Marked (markSettled identity t)) :
    l.Marked t := by
  -- a record with the ordinal of the step would be the record of the step
  have hother : ∀ b : StepIdentity, t.recordIdentity = some b → b.ordinal ≠ identity.ordinal :=
    fun b hb heq =>
      hij (h.unique i j s t identity b hs ht hid (identity_of_recordIdentity hb) heq.symm)
  have hsame : markSettled identity t = t := by
    unfold markSettled
    split
    case isTrue hcond =>
      obtain ⟨b, hb, heq⟩ := map_eq_some_iff.mp hcond.2
      exact absurd heq (hother b hb)
    case isFalse => rfl
  rw [hsame] at hmarked
  refine hmarked.imp_right ?_
  rintro ⟨b, hb, hmem⟩
  refine ⟨b, hb, ?_⟩
  rcases mem_append.mp hmem with hold | hnew
  · exact (mem_filter.mp hold).1
  · exact absurd (mem_singleton.mp hnew) (hother b hb)

theorem Marks.complete (hs : l.steps[i]? = some s)
    (hid : s.identity = some identity) :
    Marks ((l.markStepCompleted identity).setPc i (.settled none)) := by
  refine h.of_steps le_rfl ?_ fun j t ht => ?_
  · intro o ho
    rcases mem_append.mp ho with hold | hnew
    · exact h.frontier o (mem_filter.mp hold).1
    · rw [mem_singleton.mp hnew]
      exact h.ordinals i s identity hs hid
  · obtain ⟨m, hm, rfl⟩ := getElem?_setPc ht
    obtain ⟨t, hold, rfl⟩ := getElem?_markStepCompleted hm
    have hidentity : (markSettled identity t).identity = t.identity := by
      unfold markSettled
      split <;> rfl
    have hpc : (markSettled identity t).pc = t.pc := by
      unfold markSettled
      split <;> rfl
    refine ⟨t, hold, ?_⟩
    split
    case isTrue => exact ⟨hidentity, fun _ => .inl rfl⟩
    case isFalse hij =>
      refine ⟨hidentity, fun hmarked => ?_⟩
      have hcompleted := h.marked j t hold (h.marked_of_ne hs hid hold hij hmarked)
      rwa [Step.Completed, hpc]

theorem Marks.start {dependencies : List ℕ}
    (hid : s.identity = some ⟨l.ordinal, dependencies⟩) (hsettled : s.settled = false) :
    Marks { l with ordinal := l.ordinal + 1, steps := l.steps ++ [s] } := by
  refine ⟨?_, fun o ho => (h.frontier o ho).trans (Nat.lt_succ_self _), ?_, ?_⟩
  · intro j t identity ht ht'
    rcases getElem?_append_singleton ht with hold | ⟨-, rfl⟩
    · exact (h.ordinals j t identity hold ht').trans (Nat.lt_succ_self _)
    · rw [hid, Option.some.injEq] at ht'
      exact ht' ▸ Nat.lt_succ_self _
  · intro j k t u a b ht hu ha hb hab
    rcases getElem?_append_singleton ht with hold | ⟨hj, rfl⟩
    · rcases getElem?_append_singleton hu with hold' | ⟨hk, rfl⟩
      · exact h.unique j k t u a b hold hold' ha hb hab
      · rw [hid, Option.some.injEq] at hb
        rw [← hb] at hab
        exact absurd hab (h.ordinals j t a hold ha).ne
    · rcases getElem?_append_singleton hu with hold' | ⟨hk, rfl⟩
      · rw [hid, Option.some.injEq] at ha
        rw [← ha] at hab
        exact absurd hab.symm (h.ordinals k u b hold' hb).ne
      · exact hj.trans hk.symm
  · intro j t ht hmarked
    rcases getElem?_append_singleton ht with hold | ⟨-, rfl⟩
    · exact h.marked j t hold hmarked
    · rcases hmarked with hmark | ⟨b, hb, hmem⟩
      · exact absurd hmark (hsettled ▸ Bool.false_ne_true)
      · have hb' := identity_of_recordIdentity hb
        rw [hid, Option.some.injEq] at hb'
        rw [← hb'] at hmem
        exact absurd (h.frontier _ hmem) (lt_irrefl _)

theorem Marks.startFailed (hid : s.identity = none) (hsettled : s.settled = false) :
    Marks { l with steps := l.steps ++ [s] } := by
  have hne : ∀ b, s.identity ≠ some b := fun b hb => some_ne_none b (hb.symm.trans hid)
  refine ⟨?_, h.frontier, ?_, ?_⟩
  · intro j t identity ht ht'
    rcases getElem?_append_singleton ht with hold | ⟨-, rfl⟩
    · exact h.ordinals j t identity hold ht'
    · exact absurd ht' (hne identity)
  · intro j k t u a b ht hu ha hb hab
    rcases getElem?_append_singleton ht with hold | ⟨-, rfl⟩
    · rcases getElem?_append_singleton hu with hold' | ⟨-, rfl⟩
      · exact h.unique j k t u a b hold hold' ha hb hab
      · exact absurd hb (hne b)
    · exact absurd ha (hne a)
  · intro j t ht hmarked
    rcases getElem?_append_singleton ht with hold | ⟨-, rfl⟩
    · exact h.marked j t hold hmarked
    · rcases hmarked with hmark | ⟨b, hb, -⟩
      · exact absurd hmark (hsettled ▸ Bool.false_ne_true)
      · exact absurd (identity_of_recordIdentity hb) (hne b)

end

theorem noteThrown_steps (l : Ledger) (thrown : Option Reason) :
    (l.noteThrown thrown).steps = l.steps := by rw [noteThrown_eq]

theorem Marks.noteThrown (h : Marks l) (thrown : Option Reason) : Marks (l.noteThrown thrown) := by
  rw [noteThrown_eq]
  exact ⟨h.ordinals, h.frontier, h.unique, h.marked⟩

theorem Entry.marks (hentry : Entry l l') (h : Marks l) : Marks l' := by
  cases hentry with
  | wait hs hrun hpc => exact h.setPc_of_running hs hrun
  | throw hs hrun hr => exact h.setPc_of_running hs hrun
  | failBackend hs hrun hr =>
    have hflag : Marks { l with backendFailed := true } :=
      ⟨h.ordinals, h.frontier, h.unique, h.marked⟩
    exact hflag.setPc_of_running hs hrun
  | @complete i s hs hrun =>
    cases hid : s.identity with
    | none => exact h.setPc_of_running hs hrun
    | some identity => exact h.complete hs hid
  | @suspend i s r hs hrun hr =>
    refine (h.setWaiting i).setPc fun t ht hc => absurd hc (not_completed_of_running ?_)
    rw [Ledger.setWaiting, List.getElem?_modify, hs] at ht
    rw [← Option.some.inj ht]
    simpa using hrun
  | @track i s thrown hs hpc =>
    refine (h.noteThrown thrown).setPc fun t ht hc => ?_
    rw [noteThrown_steps, hs, Option.some.injEq] at ht
    rw [← ht] at hc
    rcases hc with hc | hc
    · rw [hpc, Pc.settled.injEq] at hc
      exact .inr (congrArg Pc.tracked hc)
    · exact absurd (hpc.symm.trans hc) (by simp)
  | remember reason error => exact ⟨h.ordinals, h.frontier, h.unique, h.marked⟩
  | skip =>
    exact h.of_steps (Nat.le_succ _) (fun o ho => (h.frontier o ho).trans (Nat.lt_succ_self _))
      fun j t ht => ⟨t, ht, rfl, h.marked j t ht⟩
  | start hid hrun hsettled => exact h.start hid hsettled
  | startFailed hid hpc hsettled hr => exact h.startFailed hid hsettled

theorem Marks.close (h : Marks l) : Marks { l with runReturned := true } :=
  ⟨h.ordinals, h.frontier, h.unique, h.marked⟩

end Marks

/-! ## The accounts -/

/-- A failure of the infrastructure is recorded. -/
def InfrastructureRecorded (l : Ledger) : Prop :=
  ∃ t, l.terminal = some t ∧ t.1.errorClass = .infrastructure

/-- Everything that was thrown is accounted for. -/
structure Honest (l : Ledger) : Prop where
  thrown : ∀ (i : ℕ) (s : Step) (r : Reason), l.steps[i]? = some s → s.pc = .settled (some r) →
    r.errorClass = .suspended → l.Excused
  tracked : ∀ (i : ℕ) (s : Step) (r : Reason), l.steps[i]? = some s → s.pc = .tracked (some r) →
    l.Excused
  waiting : l.suspended = true → ∃ (i : ℕ) (s : Step), l.steps[i]? = some s ∧ s.waiting = true
  backend : l.backendFailed = true →
    (∃ (i : ℕ) (s : Step) (r : Reason), l.steps[i]? = some s ∧ s.pc = .settled (some r) ∧
      r.errorClass = .infrastructure) ∨ l.InfrastructureRecorded

section Honest

variable {l l' : Ledger} {i : ℕ} {s : Step} {pc : Pc}

theorem recorded_ne_none (terminal : Option (Reason × ErrorRecord)) (reason : Reason)
    (error : ErrorRecord) : recorded terminal reason error ≠ none := by
  unfold recorded
  split
  case h_1 => exact some_ne_none _
  case h_2 => split <;> exact some_ne_none _

theorem InfrastructureRecorded.remember (h : l.InfrastructureRecorded) (reason : Reason)
    (error : ErrorRecord) : (l.remember reason error).InfrastructureRecorded := by
  obtain ⟨t, ht, hclass⟩ := h
  refine ⟨t, ?_, hclass⟩
  show recorded l.terminal reason error = some t
  rw [ht, recorded, if_pos (.inr hclass)]

/-- A failure of the infrastructure is recorded whatever was recorded before. -/
theorem infrastructureRecorded_remember {reason : Reason}
    (h : reason.errorClass = .infrastructure) (l : Ledger) (error : ErrorRecord) :
    (l.remember reason error).InfrastructureRecorded := by
  show ∃ t, recorded l.terminal reason error = some t ∧ _
  unfold recorded
  split
  case h_1 => exact ⟨_, rfl, h⟩
  case h_2 failure e hterminal =>
    split
    case isTrue hkeep => exact ⟨_, rfl, hkeep.resolve_left fun hne => hne h⟩
    case isFalse => exact ⟨_, rfl, h⟩

theorem Excused.remember (reason : Reason) (error : ErrorRecord) :
    (l.remember reason error).Excused :=
  .inr (.inl (recorded_ne_none _ _ _))

theorem Honest.remember (h : Honest l) (reason : Reason) (error : ErrorRecord) :
    Honest (l.remember reason error) where
  thrown _ _ _ _ _ _ := Excused.remember reason error
  tracked _ _ _ _ _ := Excused.remember reason error
  waiting := h.waiting
  backend hb := (h.backend hb).imp_right fun hr => hr.remember reason error

/-- A step moves on, and nothing that it has thrown is forgotten. -/
theorem Honest.setPc (h : Honest l)
    (hthrown : ∀ r, pc = .settled (some r) → r.errorClass = .suspended → l.Excused)
    (htracked : ∀ r, pc = .tracked (some r) → l.Excused)
    (hkeep : ∀ (s : Step) (r : Reason), l.steps[i]? = some s → s.pc = .settled (some r) →
      r.errorClass = .infrastructure → l.InfrastructureRecorded) :
    Honest (l.setPc i pc) := by
  refine ⟨?_, ?_, ?_, ?_⟩
  · intro j t r ht hpc hclass
    obtain ⟨s, hs, rfl⟩ := getElem?_setPc ht
    split at hpc
    case isTrue => exact hthrown r hpc hclass
    case isFalse => exact h.thrown j s r hs hpc hclass
  · intro j t r ht hpc
    obtain ⟨s, hs, rfl⟩ := getElem?_setPc ht
    split at hpc
    case isTrue => exact htracked r hpc
    case isFalse => exact h.tracked j s r hs hpc
  · intro hsuspended
    obtain ⟨j, s, hs, hwaiting⟩ := h.waiting hsuspended
    by_cases hij : i = j
    · subst hij
      exact ⟨i, { s with pc }, getElem?_setPc_self hs, hwaiting⟩
    · exact ⟨j, s, (getElem?_setPc_of_ne hij).trans hs, hwaiting⟩
  · intro hb
    rcases h.backend hb with ⟨j, s, r, hs, hpc, hclass⟩ | hr
    · by_cases hij : i = j
      · exact .inr (hkeep s r (hij ▸ hs) hpc hclass)
      · exact .inl ⟨j, s, r, (getElem?_setPc_of_ne hij).trans hs, hpc, hclass⟩
    · exact .inr hr

/-- A step that has not settled has thrown nothing. -/
theorem Honest.setPc_of_running (h : Honest l) (hs : l.steps[i]? = some s) (hrun : s.pc.running)
    (hthrown : ∀ r, pc = .settled (some r) → r.errorClass = .suspended → l.Excused)
    (htracked : ∀ r, pc ≠ .tracked (some r)) : Honest (l.setPc i pc) := by
  refine h.setPc hthrown (fun r hr => absurd hr (htracked r)) fun t r ht hpc => ?_
  rw [hs, Option.some.injEq] at ht
  rw [ht, hpc] at hrun
  exact Bool.noConfusion hrun

theorem Honest.markStepCompleted (h : Honest l) (identity : StepIdentity) :
    Honest (l.markStepCompleted identity) := by
  have hpc : ∀ s : Step, (markSettled identity s).pc = s.pc ∧
      (markSettled identity s).waiting = s.waiting := by
    intro s
    unfold markSettled
    split <;> exact ⟨rfl, rfl⟩
  have hget : ∀ (j : ℕ) (s : Step), l.steps[j]? = some s →
      (l.markStepCompleted identity).steps[j]? = some (markSettled identity s) := by
    intro j s hs
    rw [Ledger.markStepCompleted, List.getElem?_map, hs, map_some]
  refine ⟨?_, ?_, ?_, ?_⟩
  · intro j t r ht hthrown hclass
    obtain ⟨s, hs, rfl⟩ := getElem?_markStepCompleted ht
    exact h.thrown j s r hs ((hpc s).1 ▸ hthrown) hclass
  · intro j t r ht htracked
    obtain ⟨s, hs, rfl⟩ := getElem?_markStepCompleted ht
    exact h.tracked j s r hs ((hpc s).1 ▸ htracked)
  · intro hsuspended
    obtain ⟨j, s, hs, hwaiting⟩ := h.waiting hsuspended
    exact ⟨j, _, hget j s hs, (hpc s).2.trans hwaiting⟩
  · intro hb
    refine (h.backend hb).imp_left ?_
    rintro ⟨j, s, r, hs, hthrown, hclass⟩
    exact ⟨j, _, r, hget j s hs, (hpc s).1.trans hthrown, hclass⟩

theorem Honest.setWaiting (h : Honest l) (hs : l.steps[i]? = some s) : Honest (l.setWaiting i) := by
  refine ⟨fun _ _ _ _ _ _ => .inl rfl, fun _ _ _ _ _ => .inl rfl, fun _ => ?_, fun hb => ?_⟩
  · refine ⟨i, { s with waiting := true }, ?_, rfl⟩
    rw [Ledger.setWaiting, List.getElem?_modify, hs]
    simp
  · refine (h.backend hb).imp_left ?_
    rintro ⟨j, t, r, ht, hthrown, hclass⟩
    refine ⟨j, (if i = j then { t with waiting := true } else t), r, ?_, ?_, hclass⟩
    · rw [Ledger.setWaiting, List.getElem?_modify, ht]
      rfl
    · split <;> exact hthrown

/-- A step is called. -/
theorem Honest.append (h : Honest l) (hlen : l'.steps = l.steps ++ [s])
    (hsame : l'.suspended = l.suspended ∧ l'.terminal = l.terminal ∧
      l'.runReturned = l.runReturned ∧ l'.backendFailed = l.backendFailed)
    (hthrown : ∀ r, s.pc = .settled (some r) → r.errorClass = .suspended → l.Excused)
    (htracked : ∀ r, s.pc ≠ .tracked (some r)) : Honest l' := by
  obtain ⟨hsuspended, hterminal, hreturned, hbackend⟩ := hsame
  have hexcused : l.Excused → l'.Excused := by
    intro he
    rwa [Excused, hsuspended, hterminal, hreturned]
  have hget : ∀ (j : ℕ) (t : Step), l.steps[j]? = some t → l'.steps[j]? = some t := by
    intro j t ht
    rw [hlen]
    rw [List.getElem?_append_left (List.getElem?_eq_some_iff.mp ht).1]
    exact ht
  refine ⟨?_, ?_, ?_, ?_⟩
  · intro j t r ht hpc hclass
    rw [hlen] at ht
    rcases getElem?_append_singleton ht with hold | ⟨-, rfl⟩
    · exact hexcused (h.thrown j t r hold hpc hclass)
    · exact hexcused (hthrown r hpc hclass)
  · intro j t r ht hpc
    rw [hlen] at ht
    rcases getElem?_append_singleton ht with hold | ⟨-, rfl⟩
    · exact hexcused (h.tracked j t r hold hpc)
    · exact absurd hpc (htracked r)
  · intro hs
    obtain ⟨j, t, ht, hwaiting⟩ := h.waiting (hsuspended ▸ hs)
    exact ⟨j, t, hget j t ht, hwaiting⟩
  · intro hb
    rcases h.backend (hbackend ▸ hb) with ⟨j, t, r, ht, hpc, hclass⟩ | ⟨t, ht, hclass⟩
    · exact .inl ⟨j, t, r, hget j t ht, hpc, hclass⟩
    · exact .inr ⟨t, hterminal.trans ht, hclass⟩

theorem excused_noteThrown (l : Ledger) {r : Reason}
    (hr : r.errorClass = .suspended → l.Excused) : (l.noteThrown (some r)).Excused := by
  rw [Ledger.noteThrown]
  split
  case isTrue => exact .remember r (workflowError r)
  case isFalse hcond =>
    by_cases hsuspended : r.errorClass = .suspended
    · exact hr hsuspended
    · rw [not_and, not_or, Bool.not_eq_false] at hcond
      exact .inr (.inr (hcond hsuspended).1)

theorem Honest.noteThrown (h : Honest l) (thrown : Option Reason) :
    Honest (l.noteThrown thrown) := by
  unfold Ledger.noteThrown
  split
  case h_1 => exact h
  case h_2 =>
    split
    case isTrue => exact h.remember _ _
    case isFalse => exact h

/-- What is tracked is recorded, unless it is excused. -/
theorem Honest.track (h : Honest l) {thrown : Option Reason} (hs : l.steps[i]? = some s)
    (hpc : s.pc = .settled thrown) : Honest ((l.noteThrown thrown).setPc i (.tracked thrown)) := by
  refine (h.noteThrown thrown).setPc (fun r hr => absurd hr (by simp)) (fun r hr => ?_) ?_
  · rw [Pc.tracked.injEq] at hr
    subst hr
    exact excused_noteThrown l (h.thrown i s r hs hpc)
  · intro t r ht hr hclass
    rw [noteThrown_steps, hs, Option.some.injEq] at ht
    rw [← ht, hpc, Pc.settled.injEq] at hr
    rw [hr, Ledger.noteThrown, if_pos]
    · exact infrastructureRecorded_remember hclass l _
    · exact ⟨by simp [hclass], .inr hclass⟩

theorem Entry.honest (hentry : Entry l l') (h : Honest l) : Honest l' := by
  cases hentry with
  | wait hs hrun hpc =>
    refine h.setPc_of_running hs hrun (fun r hr => ?_) fun r hr => ?_
    · rw [hr] at hpc
      exact Bool.noConfusion hpc
    · rw [hr] at hpc
      exact Bool.noConfusion hpc
  | throw hs hrun hr =>
    refine h.setPc_of_running hs hrun (fun r' hr' hclass => hr ?_) (by simp)
    rw [Pc.settled.injEq, Option.some.injEq] at hr'
    exact hr' ▸ hclass
  | @failBackend i s r hs hrun hr =>
    -- without the failure of the backend the step would have thrown
    have hthrow : Honest (l.setPc i (.settled (some r))) := by
      refine h.setPc_of_running hs hrun (fun r' hr' hclass => ?_) (by simp)
      rw [Pc.settled.injEq, Option.some.injEq] at hr'
      rw [← hr', hr] at hclass
      exact ErrorClass.noConfusion hclass
    exact ⟨hthrow.thrown, hthrow.tracked, hthrow.waiting,
      fun _ => .inl ⟨i, _, r, getElem?_setPc_self hs, rfl, hr⟩⟩
  | @complete i s hs hrun =>
    cases hid : s.identity with
    | none => exact h.setPc_of_running hs hrun (by simp) (by simp)
    | some identity =>
      refine (h.markStepCompleted identity).setPc (by simp) (by simp) fun t r ht hpc => ?_
      obtain ⟨s', hs', rfl⟩ := getElem?_markStepCompleted ht
      rw [hs, Option.some.injEq] at hs'
      have hsame : (markSettled identity s').pc = s'.pc := by
        unfold markSettled
        split <;> rfl
      rw [hs', ← hsame, hpc] at hrun
      exact Bool.noConfusion hrun
  | @suspend i s r hs hrun hr =>
    refine (h.setWaiting hs).setPc (fun _ _ _ => .inl rfl) (by simp) fun t r ht hpc => ?_
    rw [Ledger.setWaiting, List.getElem?_modify, hs] at ht
    have hsame : t.pc = s.pc := by
      rw [← Option.some.inj ht]
      simp
    rw [← hsame, hpc] at hrun
    exact Bool.noConfusion hrun
  | track hs hpc => exact h.track hs hpc
  | remember reason error => exact h.remember reason error
  | skip => exact ⟨h.thrown, h.tracked, h.waiting, h.backend⟩
  | start hid hrun hsettled =>
    refine h.append rfl ⟨rfl, rfl, rfl, rfl⟩ (fun r hr => ?_) fun r hr => ?_
    · rw [hr] at hrun
      exact Bool.noConfusion hrun
    · rw [hr] at hrun
      exact Bool.noConfusion hrun
  | startFailed hid hpc hsettled hr =>
    refine h.append rfl ⟨rfl, rfl, rfl, rfl⟩ (fun r' hr' hclass => hr ?_) (by simp [hpc])
    rw [hpc, Pc.settled.injEq, Option.some.injEq] at hr'
    exact hr' ▸ hclass

theorem Honest.close (h : Honest l) : Honest { l with runReturned := true } :=
  ⟨fun _ _ _ _ _ _ => .inr (.inr rfl), fun _ _ _ _ _ => .inr (.inr rfl), h.waiting, h.backend⟩

theorem Honest.infrastructureRecorded (h : Honest l)
    (hidle : ∀ (i : ℕ) (s : Step), l.steps[i]? = some s → ¬ s.InFlight)
    (hb : l.backendFailed = true) : l.InfrastructureRecorded := by
  refine (h.backend hb).resolve_left ?_
  rintro ⟨i, s, r, hs, hpc, -⟩
  refine hidle i s hs ⟨by rw [Step.active, hpc], ?_⟩
  rw [Step.Completed, hpc]
  simp

/-- When no step is in flight and no one is accountable, every step has completed. -/
theorem Honest.completed (h : Honest l) (hnone : ¬ l.Excused) (hs : l.steps[i]? = some s)
    (hidle : ¬ s.InFlight) : s.Completed := by
  by_contra hcompleted
  refine hidle ⟨?_, hcompleted⟩
  by_contra hactive
  have htracked : ∃ thrown, s.pc = .tracked thrown := by
    unfold Step.active at hactive
    split at hactive
    case h_1 thrown hpc => exact ⟨thrown, hpc⟩
    case h_2 => exact absurd rfl hactive
  obtain ⟨thrown, hpc⟩ := htracked
  cases thrown with
  | none => exact hcompleted (.inr hpc)
  | some r => exact hnone (h.tracked i s r hs hpc)

end Honest

end Ledger

end Wdl.Runtime
