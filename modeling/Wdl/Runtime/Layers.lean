import Wdl.Runtime.Outcome
import Mathlib.Data.List.Chain
import Mathlib.Data.List.Perm.Subperm

/-!
# The layers of a run

The steps of a run form layers. The first layer has no dependencies; the dependencies of every
other layer are the ordinals of the layer before it, and all of these steps have completed when
a step of the layer is admitted (`steps_layered`, in `Wdl.Runtime.Admission`).

The controller does not know of layers. It has a frontier, which it copies into the identity of
the next step, and from which a step that completes takes its dependencies away to put itself
there. The law of the frontier (`Ledger.Frontier`) is that, as long as no step of the last layer
has completed, it is the layer before, and from then on it is what has completed of the last
layer. So a step with the dependencies of a step in flight belongs to the last layer, and a step
that is called when none is in flight begins a new one.
-/

namespace Wdl.Runtime

open List

/-- The identity of a step that was admitted. -/
def Step.admission (s : Step) : Option StepIdentity := if s.admitted then s.identity else none

/-- The identities of the steps that were admitted, in the order of the calls. -/
def admissions (steps : List Step) : List StepIdentity := steps.filterMap Step.admission

/-- The dependencies of a layer are the ordinals of the layer before. -/
def Precedes (before layer : List StepIdentity) : Prop :=
  ∀ s ∈ layer, s.dependencies = before.map StepIdentity.ordinal

/-- A list of steps in layers. -/
structure Layering (layers : List (List StepIdentity)) (ids : List StepIdentity) : Prop where
  flatten : layers.flatten = ids
  nonempty : ∀ L ∈ layers, L ≠ []
  /-- No layer comes before the first one. -/
  chain : ([] :: layers).IsChain Precedes
  increasing : (ids.map StepIdentity.ordinal).Pairwise (· < ·)

namespace Ledger

/-- A step with the identity has completed. -/
def CompletedAt (l : Ledger) (a : StepIdentity) : Prop :=
  ∃ (i : ℕ) (s : Step), l.steps[i]? = some s ∧ s.identity = some a ∧ s.Completed

/-- What the frontier is, from the last two layers. -/
def Frontier (l : Ledger) (previous current : List StepIdentity) : Prop :=
  ((∀ a ∈ current, ¬ l.CompletedAt a) ∧
    ∀ n, n ∈ l.dependencyFrontier ↔ n ∈ previous.map StepIdentity.ordinal) ∨
  ((∃ a ∈ current, l.CompletedAt a) ∧
    ∀ n, n ∈ l.dependencyFrontier ↔ ∃ a ∈ current, a.ordinal = n ∧ l.CompletedAt a)

/-- The layers, with those before the previous one; the first of them all is empty. -/
structure Layers (l : Ledger) (done : List (List StepIdentity))
    (previous current : List StepIdentity) : Prop where
  split : admissions l.steps = done.flatten ++ (previous ++ current)
  first : (done ++ [previous]).head? = some []
  nonempty : ∀ L ∈ (done ++ [previous]).tail, L ≠ []
  started : current = [] → done = [] ∧ previous = []
  chain : (done ++ [previous, current]).IsChain Precedes
  increasing : ((admissions l.steps).map StepIdentity.ordinal).Pairwise (· < ·)
  /-- All that came before has completed. -/
  before : ∀ a ∈ done.flatten ++ previous, l.CompletedAt a
  nodup : l.dependencyFrontier.Nodup
  frontier : l.Frontier previous current
  /-- A step with an identity was admitted. -/
  admitted : ∀ (i : ℕ) (s : Step), l.steps[i]? = some s → s.identity ≠ none → s.admitted = true
  /-- The record of a `step.do` that has returned is settled. -/
  settled : ∀ (i : ℕ) (s : Step), l.steps[i]? = some s → s.kind = .doStep →
    s.identity ≠ none → s.pc = .settled none → s.settled = true

variable {l l' : Ledger} {done : List (List StepIdentity)} {previous current : List StepIdentity}

/-- The layers depend on little of a ledger. -/
theorem Layers.congr (h : l.Layers done previous current)
    (hadmissions : admissions l'.steps = admissions l.steps)
    (hfrontier : l'.dependencyFrontier = l.dependencyFrontier)
    (hcompleted : ∀ a, l'.CompletedAt a ↔ l.CompletedAt a)
    (hadmitted : ∀ (i : ℕ) (s : Step), l'.steps[i]? = some s → s.identity ≠ none →
      s.admitted = true)
    (hsettled : ∀ (i : ℕ) (s : Step), l'.steps[i]? = some s → s.kind = .doStep →
      s.identity ≠ none → s.pc = .settled none → s.settled = true) :
    l'.Layers done previous current where
  split := hadmissions.trans h.split
  first := h.first
  nonempty := h.nonempty
  started := h.started
  chain := h.chain
  increasing := by
    rw [hadmissions]
    exact h.increasing
  before a ha := (hcompleted a).mpr (h.before a ha)
  nodup := by
    rw [hfrontier]
    exact h.nodup
  frontier := by
    have hfront := h.frontier
    unfold Frontier at hfront ⊢
    simpa only [hcompleted, hfrontier] using hfront
  admitted := hadmitted
  settled := hsettled

/-! ## Entries -/

theorem admissions_eq_of_map {steps steps' : List Step}
    (h : steps'.map Step.admission = steps.map Step.admission) :
    admissions steps' = admissions steps := by
  have hid : ∀ steps, admissions steps = (steps.map Step.admission).filterMap id := by
    intro steps
    rw [filterMap_map]
    rfl
  rw [hid, hid, h]

theorem admissions_modify (steps : List Step) (i : ℕ) {f : Step → Step}
    (hf : ∀ s, (f s).admission = s.admission) :
    admissions (steps.modify i f) = admissions steps := by
  refine admissions_eq_of_map (ext_getElem? fun j => ?_)
  rw [List.getElem?_map, List.getElem?_map, List.getElem?_modify,
    Option.map_eq_map, Option.map_map]
  refine Option.map_congr fun s _ => ?_
  split
  case isTrue => exact hf s
  case isFalse => rfl

theorem admissions_setPc (l : Ledger) (i : ℕ) (pc : Pc) :
    admissions (l.setPc i pc).steps = admissions l.steps :=
  admissions_modify l.steps i fun _ => rfl

theorem markSettled_admission (identity : StepIdentity) (s : Step) :
    (markSettled identity s).admission = s.admission := by
  unfold markSettled
  split <;> rfl

theorem admissions_markStepCompleted (l : Ledger) (identity : StepIdentity) :
    admissions (l.markStepCompleted identity).steps = admissions l.steps := by
  refine admissions_eq_of_map ?_
  rw [markStepCompleted, map_map]
  exact map_congr_left fun s _ => markSettled_admission identity s

/-- The steps of a ledger have gone on, but none with an identity has completed. -/
structure Quiet (l l' : Ledger) : Prop where
  admissions : admissions l'.steps = admissions l.steps
  frontier : l'.dependencyFrontier = l.dependencyFrontier
  old : ∀ (i : ℕ) (t : Step), l'.steps[i]? = some t → ∃ s : Step, l.steps[i]? = some s ∧
    t.identity = s.identity ∧ t.admitted = s.admitted ∧ t.kind = s.kind ∧ t.settled = s.settled ∧
    (s.identity ≠ none → (t.pc = .settled none → s.pc = .settled none) ∧
      (t.Completed ↔ s.Completed))
  length : l'.steps.length = l.steps.length

theorem Quiet.of_steps (hsteps : l'.steps = l.steps)
    (hfrontier : l'.dependencyFrontier = l.dependencyFrontier) : Quiet l l' where
  admissions := congrArg _ hsteps
  frontier := hfrontier
  old _ t ht := ⟨t, hsteps ▸ ht, rfl, rfl, rfl, rfl, fun _ => ⟨id, .rfl⟩⟩
  length := congrArg _ hsteps

theorem Quiet.trans {l'' : Ledger} (h : Quiet l l') (h' : Quiet l' l'') : Quiet l l'' where
  admissions := h'.admissions.trans h.admissions
  frontier := h'.frontier.trans h.frontier
  old i u hu := by
    obtain ⟨t, ht, hid', hadm', hk', hset', hc'⟩ := h'.old i u hu
    obtain ⟨s, hs, hid, hadm, hk, hset, hc⟩ := h.old i t ht
    refine ⟨s, hs, hid'.trans hid, hadm'.trans hadm, hk'.trans hk, hset'.trans hset, fun hne => ?_⟩
    obtain ⟨hp', hiff'⟩ := hc' (hid ▸ hne)
    obtain ⟨hp, hiff⟩ := hc hne
    exact ⟨hp ∘ hp', hiff'.trans hiff⟩
  length := h'.length.trans h.length

theorem Quiet.completedAt (h : Quiet l l') (a : StepIdentity) :
    l'.CompletedAt a ↔ l.CompletedAt a := by
  constructor
  · rintro ⟨i, t, ht, hid, hc⟩
    obtain ⟨s, hs, heq, -, -, -, hiff⟩ := h.old i t ht
    have hs' := heq.symm.trans hid
    exact ⟨i, s, hs, hs', ((hiff (hs' ▸ Option.some_ne_none a)).2).mp hc⟩
  · rintro ⟨i, s, hs, hid, hc⟩
    have hi : i < l'.steps.length := h.length ▸ (List.getElem?_eq_some_iff.mp hs).1
    obtain ⟨s', hs', heq, -, -, -, hiff⟩ := h.old i _ (List.getElem?_eq_getElem hi)
    cases hs.symm.trans hs'
    exact ⟨i, _, List.getElem?_eq_getElem hi, heq.trans hid,
      ((hiff (hid ▸ Option.some_ne_none a)).2).mpr hc⟩

theorem Layers.quiet (h : l.Layers done previous current) (hq : Quiet l l') :
    l'.Layers done previous current := by
  refine h.congr hq.admissions hq.frontier hq.completedAt ?_ ?_
  · intro i t ht hid
    obtain ⟨s, hs, heq, hadmitted, -⟩ := hq.old i t ht
    exact hadmitted.trans (h.admitted i s hs (heq ▸ hid))
  · intro i t ht hkind hid hpc
    obtain ⟨s, hs, heq, -, hk, hsettled, hc⟩ := hq.old i t ht
    have hne : s.identity ≠ none := heq ▸ hid
    exact hsettled.trans (h.settled i s hs (hk ▸ hkind) hne ((hc hne).1 hpc))

variable {i : ℕ} {s : Step}

theorem Quiet.setPc {pc : Pc} (hs : l.steps[i]? = some s)
    (hpc : s.identity ≠ none → (pc = .settled none → s.pc = .settled none) ∧
      ({ s with pc }.Completed ↔ s.Completed)) : Quiet l (l.setPc i pc) where
  admissions := admissions_setPc l i pc
  frontier := rfl
  old j t ht := by
    obtain ⟨s', hs', rfl⟩ := getElem?_setPc ht
    refine ⟨s', hs', ?_⟩
    split
    case isTrue hij =>
      subst hij
      cases hs.symm.trans hs'
      exact ⟨rfl, rfl, rfl, rfl, hpc⟩
    case isFalse => exact ⟨rfl, rfl, rfl, rfl, fun _ => ⟨id, .rfl⟩⟩
  length := length_modify _ _ _

/-- A step that has not settled moves on to anything but its completion. -/
theorem Quiet.setPc_of_running {pc : Pc} (hs : l.steps[i]? = some s)
    (hrun : s.pc.running) (hsettled : pc ≠ .settled none) (htracked : pc ≠ .tracked none) :
    Quiet l (l.setPc i pc) := by
  refine .setPc hs fun _ => ⟨fun h => absurd h hsettled, fun hc => ?_, fun hc => ?_⟩
  · exact absurd hc (not_or.mpr ⟨hsettled, htracked⟩)
  · exact absurd hc (not_completed_of_running hrun)

theorem Quiet.setWaiting (l : Ledger) (i : ℕ) : Quiet l (l.setWaiting i) where
  admissions := admissions_modify l.steps i fun _ => rfl
  frontier := rfl
  old j t ht := by
    rw [Ledger.setWaiting, List.getElem?_modify] at ht
    obtain ⟨s, hs, rfl⟩ := Option.map_eq_some_iff.mp ht
    refine ⟨s, hs, ?_⟩
    split <;> exact ⟨rfl, rfl, rfl, rfl, fun _ => ⟨id, .rfl⟩⟩
  length := length_modify _ _ _

theorem Quiet.track {thrown : Option Reason} (hs : l.steps[i]? = some s)
    (hpc : s.pc = .settled thrown) :
    Quiet l ((l.noteThrown thrown).setPc i (.tracked thrown)) := by
  have hnoted : (l.noteThrown thrown).steps[i]? = some s := by rw [noteThrown_steps, hs]
  refine (Quiet.of_steps (noteThrown_steps l thrown) (by rw [noteThrown_eq])).trans
    (Quiet.setPc hnoted fun _ => ?_)
  rw [Step.Completed, Step.Completed, hpc]
  simp

/-! ## Completion -/

variable {a : StepIdentity}

/-- The identity of a step that is in flight belongs to the last layer. -/
theorem Layers.mem_current (h : l.Layers done previous current) (hm : l.Marks)
    (hs : l.steps[i]? = some s) (hid : s.identity = some a) (hc : ¬ s.Completed) : a ∈ current := by
  have hmem : a ∈ admissions l.steps := by
    refine mem_filterMap.mpr ⟨s, mem_of_getElem? hs, ?_⟩
    rw [Step.admission, h.admitted i s hs (hid ▸ Option.some_ne_none a), if_pos rfl, hid]
  rw [h.split, ← append_assoc] at hmem
  refine (mem_append.mp hmem).resolve_left fun hbefore => ?_
  -- a step that has completed with the same identity would be the same step
  obtain ⟨j, t, ht, hid', hct⟩ := h.before a hbefore
  obtain rfl := hm.unique i j s t a a hs ht hid hid' rfl
  exact hc (Option.some.inj (ht.symm.trans hs) ▸ hct)

theorem Layers.lt_of_mem (h : l.Layers done previous current) {b : StepIdentity}
    (ha : a ∈ done.flatten ++ previous) (hb : b ∈ current) : a.ordinal < b.ordinal := by
  have hp := h.increasing
  rw [h.split, ← append_assoc, map_append, pairwise_append] at hp
  exact hp.2.2 _ (mem_map_of_mem ha) _ (mem_map_of_mem hb)

/-- The dependencies of the last layer are the ordinals of the layer before. -/
theorem Layers.dependencies (h : l.Layers done previous current) (ha : a ∈ current) :
    a.dependencies = previous.map StepIdentity.ordinal := by
  have hc := h.chain
  rw [isChain_append] at hc
  have hpair := hc.2.1
  rw [isChain_cons_cons] at hpair
  exact hpair.1 a ha

theorem markSettled_eq (identity : StepIdentity) (s : Step) :
    (markSettled identity s).identity = s.identity ∧
      (markSettled identity s).admitted = s.admitted ∧ (markSettled identity s).kind = s.kind ∧
      (markSettled identity s).pc = s.pc ∧
      (s.settled = true → (markSettled identity s).settled = true) := by
  unfold markSettled
  split
  · exact ⟨rfl, rfl, rfl, rfl, fun _ => rfl⟩
  · exact ⟨rfl, rfl, rfl, rfl, id⟩

/-- What a step that completes enters. -/
def completeAt (l : Ledger) (i : ℕ) (a : StepIdentity) : Ledger :=
  (l.markStepCompleted a).setPc i (.settled none)

section Complete

variable {i : ℕ} {s : Step} {a : StepIdentity} (hs : l.steps[i]? = some s)
  (hid : s.identity = some a) (hrun : s.pc.running)

theorem getElem?_completeAt {j : ℕ} {t : Step} (ht : (l.completeAt i a).steps[j]? = some t) :
    ∃ u : Step, l.steps[j]? = some u ∧
      ((i = j ∧ t = { markSettled a u with pc := .settled none }) ∨
        (i ≠ j ∧ t = markSettled a u)) := by
  obtain ⟨m, hm, rfl⟩ := getElem?_setPc ht
  obtain ⟨u, hu, rfl⟩ := getElem?_markStepCompleted hm
  refine ⟨u, hu, ?_⟩
  split
  case isTrue hij => exact .inl ⟨hij, rfl⟩
  case isFalse hij => exact .inr ⟨hij, rfl⟩

include hs hid hrun in
theorem completedAt_completeAt (b : StepIdentity) :
    (l.completeAt i a).CompletedAt b ↔ l.CompletedAt b ∨ b = a := by
  have hnew : ∀ (j : ℕ) (u : Step), l.steps[j]? = some u →
      (l.completeAt i a).steps[j]? =
        some (if i = j then { markSettled a u with pc := .settled none } else markSettled a u) := by
    intro j u hu
    rw [completeAt, setPc, List.getElem?_modify, markStepCompleted, List.getElem?_map, hu]
    split <;> rfl
  constructor
  · rintro ⟨j, t, ht, hid', hc⟩
    obtain ⟨u, hu, ⟨rfl, rfl⟩ | ⟨hij, rfl⟩⟩ := getElem?_completeAt ht
    · cases hs.symm.trans hu
      exact .inr (Option.some.inj (hid'.symm.trans ((markSettled_eq a s).1.trans hid)))
    · rw [Step.Completed, (markSettled_eq a u).2.2.2.1] at hc
      exact .inl ⟨j, u, hu, (markSettled_eq a u).1 ▸ hid', hc⟩
  · rintro (⟨j, u, hu, hid', hc⟩ | rfl)
    · refine ⟨j, _, hnew j u hu, ?_⟩
      have hij : i ≠ j := by
        rintro rfl
        cases hs.symm.trans hu
        exact not_completed_of_running hrun hc
      rw [if_neg hij, Step.Completed, (markSettled_eq a u).2.2.2.1]
      exact ⟨(markSettled_eq a u).1.trans hid', hc⟩
    · refine ⟨i, _, hnew i s hs, ?_⟩
      rw [if_pos rfl]
      exact ⟨(markSettled_eq b s).1.trans hid, .inl rfl⟩

theorem Marks.ordinal_ne (hm : l.Marks) (hs : l.steps[i]? = some s) (hid : s.identity = some a)
    (hrun : s.pc.running) {b : StepIdentity} (hb : l.CompletedAt b) : b.ordinal ≠ a.ordinal := by
  intro heq
  obtain ⟨j, t, ht, hid', hc⟩ := hb
  obtain rfl := hm.unique i j s t a b hs ht hid hid' heq.symm
  exact not_completed_of_running hrun (Option.some.inj (ht.symm.trans hs) ▸ hc)

include hs hid hrun in
theorem Layers.complete (h : l.Layers done previous current) (hm : l.Marks) :
    (l.completeAt i a).Layers done previous current := by
  have hcompleted := completedAt_completeAt hs hid hrun
  have hcurrent := h.mem_current hm hs hid (not_completed_of_running hrun)
  have hdeps := h.dependencies hcurrent
  have hadmissions : admissions (l.completeAt i a).steps = admissions l.steps :=
    (admissions_setPc _ i _).trans (admissions_markStepCompleted l a)
  -- what was on the frontier and is not a dependency is a completed step of the layer
  have hkept : ∀ n, n ∈ l.dependencyFrontier → n ∉ a.dependencies →
      ∃ b ∈ current, b.ordinal = n ∧ l.CompletedAt b := by
    intro n hn hnot
    rcases h.frontier with ⟨-, hiff⟩ | ⟨-, hiff⟩
    · exact absurd (hdeps ▸ (hiff n).mp hn) hnot
    · exact (hiff n).mp hn
  have hfront : ∀ n, n ∈ (l.completeAt i a).dependencyFrontier ↔
      ∃ b ∈ current, b.ordinal = n ∧ (l.completeAt i a).CompletedAt b := by
    intro n
    show n ∈ (l.dependencyFrontier.filter fun o => o ∉ a.dependencies) ++ [a.ordinal] ↔ _
    rw [mem_append, mem_filter, decide_eq_true_eq, mem_singleton]
    constructor
    · rintro (⟨hn, hnot⟩ | rfl)
      · obtain ⟨b, hb, rfl, hc⟩ := hkept n hn hnot
        exact ⟨b, hb, rfl, (hcompleted b).mpr (.inl hc)⟩
      · exact ⟨a, hcurrent, rfl, (hcompleted a).mpr (.inr rfl)⟩
    · rintro ⟨b, hb, rfl, hc⟩
      rcases (hcompleted b).mp hc with hold | rfl
      · refine .inl ⟨?_, fun hmem => ?_⟩
        · rcases h.frontier with ⟨hnone, -⟩ | ⟨-, hiff⟩
          · exact absurd hold (hnone b hb)
          · exact (hiff _).mpr ⟨b, hb, rfl, hold⟩
        · obtain ⟨p, hp, heq⟩ := mem_map.mp (hdeps ▸ hmem)
          exact absurd heq (h.lt_of_mem (mem_append_right _ hp) hb).ne
      · exact .inr rfl
  refine { h with
    split := hadmissions.trans h.split
    increasing := hadmissions ▸ h.increasing
    before := fun b hb => (hcompleted b).mpr (.inl (h.before b hb))
    nodup := ?_
    frontier := .inr ⟨⟨a, hcurrent, (hcompleted a).mpr (.inr rfl)⟩, hfront⟩
    admitted := ?_
    settled := ?_ }
  · refine .append (h.nodup.filter _) (nodup_singleton _) ?_
    intro n hn hsingle
    obtain rfl := mem_singleton.mp hsingle
    have hn := mem_filter.mp hn
    obtain ⟨b, -, heq, hc⟩ := hkept _ hn.1 (of_decide_eq_true hn.2)
    exact hm.ordinal_ne hs hid hrun hc heq
  · intro j t ht hne
    obtain ⟨u, hu, ⟨-, rfl⟩ | ⟨-, rfl⟩⟩ := getElem?_completeAt ht <;>
      exact (markSettled_eq a u).2.1.trans (h.admitted j u hu ((markSettled_eq a u).1 ▸ hne))
  · intro j t ht hkind hne hpc
    obtain ⟨u, hu, hcase⟩ := getElem?_completeAt ht
    obtain ⟨hid', -, hk, hp, hset⟩ := markSettled_eq a u
    rcases hcase with ⟨rfl, rfl⟩ | ⟨-, rfl⟩
    · -- the record of the step itself is found and settled
      cases hs.symm.trans hu
      have hfound : s.active ∧ s.recordIdentity.map StepIdentity.ordinal = some a.ordinal := by
        refine ⟨?_, ?_⟩
        · unfold Step.active
          split
          case h_1 hpc' =>
            rw [hpc'] at hrun
            exact Bool.noConfusion hrun
          case h_2 => rfl
        · rw [Step.recordIdentity, if_pos (hk.symm.trans hkind), hid, Option.map_some]
      show (markSettled a s).settled = true
      rw [markSettled, if_pos hfound]
    · exact hset (h.settled j u hu (hk ▸ hkind) (hid' ▸ hne) (hp ▸ hpc))

end Complete

theorem Layers.entry (h : l.Layers done previous current) (hm : l.Marks) (hentry : Entry l l')
    (hlength : l'.steps.length = l.steps.length) : l'.Layers done previous current := by
  cases hentry with
  | @wait i s pc hs hrun hpc =>
    refine h.quiet (.setPc_of_running hs hrun ?_ ?_) <;>
      (rintro rfl; exact Bool.noConfusion hpc)
  | throw hs hrun hr => exact h.quiet (.setPc_of_running hs hrun (by simp) (by simp))
  | @failBackend i s r hs hrun hr =>
    have hflag : Quiet l { l with backendFailed := true } := Quiet.of_steps rfl rfl
    exact h.quiet (hflag.trans (.setPc_of_running hs hrun (by simp) (by simp)))
  | @complete i s hs hrun =>
    cases hid : s.identity with
    | none => exact h.quiet (.setPc hs fun hne => absurd hid hne)
    | some a => exact h.complete hs hid hrun hm
  | @suspend i s r hs hrun hr =>
    have hs' : (l.setWaiting i).steps[i]? = some { s with waiting := true } := by
      rw [setWaiting, List.getElem?_modify, hs]
      simp
    exact h.quiet ((Quiet.setWaiting l i).trans
      (Quiet.setPc_of_running hs' hrun (by simp) (by simp)))
  | track hs hpc => exact h.quiet (.track hs hpc)
  | remember | skip => exact h.quiet (.of_steps rfl rfl)
  | start | startFailed =>
    rw [length_append] at hlength
    exact absurd hlength (Nat.succ_ne_self _)

theorem Entry.length_le (hentry : Entry l l') : l.steps.length ≤ l'.steps.length := by
  cases hentry with
  | @complete i s hs hrun =>
    cases s.identity with
    | none => exact (length_modify _ _ _).ge
    | some a => exact ((length_modify _ _ _).trans (length_map _)).ge
  | suspend hs hrun hr => exact ((length_modify _ _ _).trans (length_modify _ _ _)).ge
  | track hs hpc =>
    exact ((length_modify _ _ _).trans (congrArg _ (noteThrown_steps l _))).ge
  | remember | skip => exact le_rfl
  | start | startFailed => exact (length_append.trans (by rfl)).ge.trans' (Nat.le_succ _)
  | _ => exact (length_modify _ _ _).ge

/-- A sequence of entries that calls no step keeps the layers. -/
theorem Layers.entries (h : l.Layers done previous current) (hm : l.Marks) (hl : Entries l l')
    (hlength : l'.steps.length = l.steps.length) : l'.Layers done previous current := by
  have hmono : ∀ {m m' : Ledger}, Entries m m' → m.steps.length ≤ m'.steps.length := by
    intro m m' hm
    induction hm with
    | refl => exact le_rfl
    | tail _ hentry ih => exact ih.trans hentry.length_le
  induction hl with
  | refl => exact h
  | @tail m m' hmm hentry ih =>
    have hlast := hentry.length_le
    have hfirst := hmono hmm
    exact (ih (by omega)).entry (Entries.keeps (fun _ _ => Entry.marks) hmm hm) hentry (by omega)

/-! ## Calls -/

section Call

variable {s : Step}

theorem completedAt_append (hc : ¬ s.Completed) (hsteps : l'.steps = l.steps ++ [s])
    (a : StepIdentity) : l'.CompletedAt a ↔ l.CompletedAt a := by
  constructor
  · rintro ⟨i, t, ht, hid, ht'⟩
    rw [hsteps] at ht
    rcases getElem?_append_singleton ht with hold | ⟨-, rfl⟩
    · exact ⟨i, t, hold, hid, ht'⟩
    · exact absurd ht' hc
  · rintro ⟨i, t, ht, hid, ht'⟩
    refine ⟨i, t, ?_, hid, ht'⟩
    rw [hsteps, List.getElem?_append_left (List.getElem?_eq_some_iff.mp ht).1]
    exact ht

theorem admissions_append (steps : List Step) (s : Step) :
    admissions (steps ++ [s]) = admissions steps ++ s.admission.toList := by
  cases hs : s.admission <;> simp [admissions, hs]

/-- A step that throws at once has no place in the layers. -/
theorem Layers.startFailed (h : l.Layers done previous current) (hid : s.identity = none)
    {r : Reason} (hpc : s.pc = .settled (some r)) :
    Layers { l with steps := l.steps ++ [s] } done previous current := by
  have hadmission : s.admission = none := by
    rw [Step.admission, hid, ite_self]
  have hc : ¬ s.Completed := by
    rw [Step.Completed, hpc]
    simp
  refine h.congr ?_ rfl (completedAt_append hc rfl) ?_ ?_
  · show admissions (l.steps ++ [s]) = _
    rw [admissions_append, hadmission, Option.toList_none, append_nil]
  · intro i t ht hne
    rcases getElem?_append_singleton ht with hold | ⟨-, rfl⟩
    · exact h.admitted i t hold hne
    · exact absurd hid hne
  · intro i t ht hkind hne
    rcases getElem?_append_singleton ht with hold | ⟨-, rfl⟩
    · exact h.settled i t hold hkind hne
    · exact absurd hid hne

/-- What a call adds to the ledger. -/
def call (l : Ledger) (s : Step) : Ledger :=
  { l with ordinal := l.ordinal + 1, steps := l.steps ++ [s] }

variable {deps : List ℕ} (hid : s.identity = some ⟨l.ordinal, deps⟩) (hadmitted : s.admitted = true)
  (hrun : s.pc.running = true)

include hid hadmitted in
theorem admissions_call :
    admissions (l.call s).steps = admissions l.steps ++ [⟨l.ordinal, deps⟩] := by
  show admissions (l.steps ++ [s]) = _
  rw [admissions_append, Step.admission, if_pos hadmitted, hid]
  rfl

include hid hadmitted in
theorem Layers.increasing_call (h : l.Layers done previous current) (hm : l.Marks) :
    ((admissions (l.call s).steps).map StepIdentity.ordinal).Pairwise (· < ·) := by
  rw [admissions_call hid hadmitted, map_append, pairwise_append]
  refine ⟨h.increasing, pairwise_singleton _ _, ?_⟩
  intro n hn k hk
  obtain ⟨a, ha, rfl⟩ := mem_map.mp hn
  obtain rfl := mem_singleton.mp hk
  obtain ⟨t, ht, hta⟩ := mem_filterMap.mp ha
  obtain ⟨i, hi⟩ := List.getElem?_of_mem ht
  refine hm.ordinals i t a hi ?_
  unfold Step.admission at hta
  split at hta
  case isTrue => exact hta
  case isFalse => cases hta

include hid hadmitted hrun in
/-- What the layers say about each step, with the new one. -/
theorem Layers.fields_call (h : l.Layers done previous current) :
    (∀ (i : ℕ) (t : Step), (l.call s).steps[i]? = some t → t.identity ≠ none → t.admitted = true) ∧
    (∀ (i : ℕ) (t : Step), (l.call s).steps[i]? = some t → t.kind = .doStep → t.identity ≠ none →
      t.pc = .settled none → t.settled = true) := by
  refine ⟨fun i t ht hne => ?_, fun i t ht hkind hne hpc => ?_⟩
  · rcases getElem?_append_singleton ht with hold | ⟨-, rfl⟩
    · exact h.admitted i t hold hne
    · exact hadmitted
  · rcases getElem?_append_singleton ht with hold | ⟨-, rfl⟩
    · exact h.settled i t hold hkind hne hpc
    · rw [hpc] at hrun
      exact Bool.noConfusion hrun

include hadmitted hrun in
/-- A step joins the last layer, of which none has completed. -/
theorem Layers.join (h : l.Layers done previous current) (hm : l.Marks)
    (hid : s.identity = some ⟨l.ordinal, previous.map StepIdentity.ordinal⟩)
    (hnone : ∀ a ∈ current, ¬ l.CompletedAt a)
    (hfront : ∀ n, n ∈ l.dependencyFrontier ↔ n ∈ previous.map StepIdentity.ordinal) :
    (l.call s).Layers done previous
      (current ++ [⟨l.ordinal, previous.map StepIdentity.ordinal⟩]) := by
  have hcompleted : ∀ a, (l.call s).CompletedAt a ↔ l.CompletedAt a :=
    completedAt_append (not_completed_of_running hrun) rfl
  have hfields := h.fields_call hid hadmitted hrun
  refine ⟨?_, h.first, h.nonempty, ?_, ?_, h.increasing_call hid hadmitted hm,
    fun a ha => (hcompleted a).mpr (h.before a ha), h.nodup, .inl ⟨?_, hfront⟩,
    hfields.1, hfields.2⟩
  · rw [admissions_call hid hadmitted, h.split]
    simp only [append_assoc]
  · exact fun hnil => absurd hnil (by simp)
  · have hchain := h.chain
    rw [isChain_append] at hchain ⊢
    refine ⟨hchain.1, ?_, hchain.2.2⟩
    rw [isChain_cons_cons]
    refine ⟨fun a ha => ?_, .singleton _⟩
    rcases mem_append.mp ha with hold | hnew
    · exact h.dependencies hold
    · rw [mem_singleton.mp hnew]
  · intro a ha hc
    rw [hcompleted] at hc
    rcases mem_append.mp ha with hold | hnew
    · exact hnone a hold hc
    · obtain ⟨i, t, ht, hta, -⟩ := hc
      have hlt := hm.ordinals i t a ht hta
      rw [mem_singleton.mp hnew] at hlt
      exact absurd hlt (lt_irrefl _)

include hadmitted hrun in
/-- A step begins a layer, when all of the last one has completed. -/
theorem Layers.advance (h : l.Layers done previous current) (hm : l.Marks)
    (hid : s.identity = some ⟨l.ordinal, current.map StepIdentity.ordinal⟩) (hne : current ≠ [])
    (hall : ∀ a ∈ current, l.CompletedAt a)
    (hfront : ∀ n, n ∈ l.dependencyFrontier ↔ n ∈ current.map StepIdentity.ordinal) :
    (l.call s).Layers (done ++ [previous]) current
      [⟨l.ordinal, current.map StepIdentity.ordinal⟩] := by
  have hcompleted : ∀ a, (l.call s).CompletedAt a ↔ l.CompletedAt a :=
    completedAt_append (not_completed_of_running hrun) rfl
  have hfields := h.fields_call hid hadmitted hrun
  have hlist : done ++ [previous] ≠ [] := by simp
  refine ⟨?_, ?_, ?_, ?_, ?_, h.increasing_call hid hadmitted hm, ?_, h.nodup,
    .inl ⟨?_, hfront⟩, hfields.1, hfields.2⟩
  · rw [admissions_call hid hadmitted, h.split]
    simp only [flatten_append, flatten_singleton, append_assoc]
  · rw [List.head?_append_of_ne_nil _ hlist]
    exact h.first
  · rw [tail_append_of_ne_nil hlist]
    intro L hL
    rcases mem_append.mp hL with hold | hnew
    · exact h.nonempty L hold
    · exact mem_singleton.mp hnew ▸ hne
  · exact fun hnil => absurd hnil (by simp)
  · have hchain := h.chain
    rw [show done ++ [previous, current] = (done ++ [previous]) ++ [current] by simp] at hchain
    rw [show done ++ [previous] ++ [current, [⟨l.ordinal, current.map StepIdentity.ordinal⟩]] =
      ((done ++ [previous]) ++ [current]) ++ [[⟨l.ordinal, current.map StepIdentity.ordinal⟩]] by
        simp, isChain_append]
    refine ⟨hchain, .singleton _, ?_⟩
    intro L hL L' hL' a ha
    rw [List.getLast?_concat] at hL
    rw [List.head?_cons] at hL'
    rw [← Option.some.inj hL'] at ha
    rw [mem_singleton.mp ha, Option.some.inj hL]
  · intro a ha
    refine (hcompleted a).mpr ?_
    rw [flatten_append, flatten_singleton] at ha
    rcases mem_append.mp ha with hold | hnew
    · exact h.before a hold
    · exact hall a hnew
  · intro a ha hc
    rw [hcompleted] at hc
    obtain ⟨i, t, ht, hta, -⟩ := hc
    have hlt := hm.ordinals i t a ht hta
    rw [mem_singleton.mp ha] at hlt
    exact absurd hlt (lt_irrefl _)

end Call

/-- The order of a layer is the order of its ordinals. -/
theorem insertionSort_eq_map {frontier : List ℕ} {layer : List StepIdentity}
    (hnodup : frontier.Nodup)
    (hincreasing : (layer.map StepIdentity.ordinal).Pairwise (· < ·))
    (hmem : ∀ n, n ∈ frontier ↔ n ∈ layer.map StepIdentity.ordinal) :
    frontier.insertionSort (· ≤ ·) = layer.map StepIdentity.ordinal := by
  have hperm : (frontier.insertionSort (· ≤ ·)).Perm (layer.map StepIdentity.ordinal) :=
    (perm_insertionSort _ _).trans
      ((perm_ext_iff_of_nodup hnodup (hincreasing.imp fun h => h.ne)).mpr hmem)
  exact hperm.eq_of_pairwise' (pairwise_insertionSort _ _) (hincreasing.imp fun h => h.le)

theorem Layers.pairwise_previous (h : l.Layers done previous current) :
    (previous.map StepIdentity.ordinal).Pairwise (· < ·) := by
  have hp := h.increasing
  rw [h.split, map_append, pairwise_append, map_append, pairwise_append] at hp
  exact hp.2.1.1

theorem Layers.pairwise_current (h : l.Layers done previous current) :
    (current.map StepIdentity.ordinal).Pairwise (· < ·) := by
  have hp := h.increasing
  rw [h.split, map_append, pairwise_append, map_append, pairwise_append] at hp
  exact hp.2.1.2.1

/-- There are layers. -/
def Layered (l : Ledger) : Prop :=
  ∃ (done : List (List StepIdentity)) (previous current : List StepIdentity),
    l.Layers done previous current

section Start

variable {s : Step}
  (hid : s.identity = some ⟨l.ordinal, l.dependencyFrontier.insertionSort (· ≤ ·)⟩)
  (hadmitted : s.admitted = true) (hrun : s.pc.running = true)
include hid hadmitted hrun

theorem Layers.startAlone (h : l.Layers done previous current) (hm : l.Marks)
    (hall : ∀ (i : ℕ) (t : Step), l.steps[i]? = some t → t.Completed) : (l.call s).Layered := by
  have hcompleted : ∀ a ∈ current, l.CompletedAt a := by
    intro a ha
    have hmem : a ∈ admissions l.steps := by
      rw [h.split]
      exact mem_append_right _ (mem_append_right _ ha)
    obtain ⟨t, ht, hta⟩ := mem_filterMap.mp hmem
    obtain ⟨i, hi⟩ := List.getElem?_of_mem ht
    refine ⟨i, t, hi, ?_, hall i t hi⟩
    unfold Step.admission at hta
    split at hta
    case isTrue => exact hta
    case isFalse => cases hta
  rcases h.frontier with ⟨hnone, hfront⟩ | ⟨⟨b, hb, -⟩, hfront⟩
  · -- it is the first step
    rw [insertionSort_eq_map h.nodup h.pairwise_previous hfront] at hid
    exact ⟨_, _, _, h.join hadmitted hrun hm hid hnone hfront⟩
  · have hfront' : ∀ n, n ∈ l.dependencyFrontier ↔ n ∈ current.map StepIdentity.ordinal := by
      intro n
      rw [hfront, mem_map]
      refine exists_congr fun a => and_congr_right fun ha => and_iff_left ?_
      exact hcompleted a ha
    rw [insertionSort_eq_map h.nodup h.pairwise_current hfront'] at hid
    exact ⟨_, _, _, h.advance hadmitted hrun hm hid (ne_nil_of_mem hb) hcompleted hfront'⟩

/-- A step is called beside one that is in flight and has the same dependencies. -/
theorem Layers.startBeside (h : l.Layers done previous current) (hm : l.Marks) {i : ℕ} {t : Step}
    {b : StepIdentity} (ht : l.steps[i]? = some t) (htb : t.identity = some b)
    (hc : ¬ t.Completed) (hdeps : b.dependencies = l.dependencyFrontier.insertionSort (· ≤ ·)) :
    (l.call s).Layered := by
  have hb := h.mem_current hm ht htb hc
  rw [h.dependencies hb] at hdeps
  rw [← hdeps] at hid
  rcases h.frontier with ⟨hnone, hfront⟩ | ⟨⟨a, ha, hac⟩, hfront⟩
  · exact ⟨_, _, _, h.join hadmitted hrun hm hid hnone hfront⟩
  · -- a completed step of the layer is on the frontier, but not in the layer before
    have hmem : a.ordinal ∈ previous.map StepIdentity.ordinal := by
      rw [hdeps, mem_insertionSort]
      exact (hfront _).mpr ⟨a, ha, rfl, hac⟩
    obtain ⟨p, hp, heq⟩ := mem_map.mp hmem
    exact absurd heq (h.lt_of_mem (mem_append_right _ hp) ha).ne

end Start

end Ledger

end Wdl.Runtime
