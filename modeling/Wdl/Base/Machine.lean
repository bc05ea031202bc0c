import Mathlib.Order.WellFounded
import Mathlib.Data.List.Induction

/-!
# Machines

A single-threaded program that waits for events, one after the other, is a machine:
a state, and a partial function that says what each event makes of it. An event
carries everything the program does not decide itself (which of several pending calls
completes first, and with what answer), so a run is given by the list of its events,
and two runs with the same events end in the same state.

* `Machine.run` is the state after a list of events, if each of them was possible;
* `Machine.run_induction` is the rule of invariants, for properties of a state and
  of the events that led to it;
* `Machine.Terminates` says that no run is infinite, and
  `Machine.terminates_of_decreasing` is the rule of measures.
-/

namespace Wdl

/-- A state machine driven by events: where it starts, and the state after an event, if
    the event is possible. -/
structure Machine (σ α : Type) where
  /-- The state before the first event. -/
  start : σ
  /-- The state after an event. -/
  next : σ → α → Option σ

namespace Machine

variable {σ α : Type} (M : Machine σ α)

/-- The state after a list of events, from a given state on. -/
def runFrom : σ → List α → Option σ
  | s, [] => some s
  | s, e :: es => (M.next s e).bind fun t => runFrom t es

/-- The state after a list of events, from the start. -/
def run (es : List α) : Option σ := M.runFrom M.start es

variable {M} {s : σ}

theorem runFrom_append (es fs : List α) :
    M.runFrom s (es ++ fs) = (M.runFrom s es).bind fun t => M.runFrom t fs := by
  induction es generalizing s with
  | nil => rfl
  | cons e es ih =>
    rw [List.cons_append, runFrom, runFrom]
    cases M.next s e with
    | none => rfl
    | some t => exact ih

variable {es : List α}

theorem runFrom_append_iff {t : σ} {fs : List α} :
    M.runFrom s (es ++ fs) = some t ↔
      ∃ m, M.runFrom s es = some m ∧ M.runFrom m fs = some t := by
  rw [runFrom_append, Option.bind_eq_some_iff]

theorem runFrom_cons_iff {t : σ} {e : α} :
    M.runFrom s (e :: es) = some t ↔ ∃ m, M.next s e = some m ∧ M.runFrom m es = some t := by
  rw [runFrom, Option.bind_eq_some_iff]

theorem runFrom_snoc_iff {t : σ} {e : α} :
    M.runFrom s (es ++ [e]) = some t ↔ ∃ m, M.runFrom s es = some m ∧ M.next m e = some t := by
  rw [runFrom_append_iff]
  refine exists_congr fun m => and_congr_right fun _ => ?_
  rw [runFrom_cons_iff]
  constructor
  · rintro ⟨_, he, ht⟩
    rwa [← Option.some.inj ht]
  · exact fun he => ⟨t, he, rfl⟩

theorem run_append_iff {t : σ} {fs : List α} :
    M.run (es ++ fs) = some t ↔ ∃ m, M.run es = some m ∧ M.runFrom m fs = some t :=
  runFrom_append_iff

variable {P : List α → σ → Prop}

/-- The rule of invariants from a state on: what holds there, and is kept by each
    event, holds after every run. It may speak of the events of the run. -/
theorem runFrom_induction (base : P [] s)
    (step : ∀ es m e t, M.runFrom s es = some m → P es m → M.next m e = some t →
      P (es ++ [e]) t)
    (es : List α) (t : σ) (h : M.runFrom s es = some t) : P es t := by
  induction es using List.reverseRecOn generalizing t with
  | nil => exact Option.some.inj h ▸ base
  | append_singleton es e ih =>
    obtain ⟨m, hm, he⟩ := runFrom_snoc_iff.mp h
    exact step es m e t hm (ih m hm) he

theorem run_induction (base : P [] M.start)
    (step : ∀ es m e t, M.run es = some m → P es m → M.next m e = some t → P (es ++ [e]) t)
    (es : List α) (t : σ) (h : M.run es = some t) : P es t :=
  runFrom_induction base step es t h

variable (M) in
/-- Every event of a run from a state on meets a condition, in the state before it. -/
def MeetsFrom (C : σ → α → Prop) : σ → List α → Prop
  | _, [] => True
  | s, e :: es => C s e ∧ (M.next s e).elim True fun t => MeetsFrom C t es

instance decidableMeetsFrom (C : σ → α → Prop) [∀ s e, Decidable (C s e)] :
    ∀ s es, Decidable (M.MeetsFrom C s es)
  | _, [] => .isTrue trivial
  | s, e :: es =>
    match h : M.next s e with
    | none => decidable_of_iff (C s e) (by rw [MeetsFrom, h]; exact (and_true _).to_iff.symm)
    | some t =>
      have := decidableMeetsFrom C t es
      decidable_of_iff (C s e ∧ M.MeetsFrom C t es) (by rw [MeetsFrom, h]; rfl)

/-- The rule of invariants for the runs whose events all meet a condition. -/
theorem runFrom_induction_of_meets {C : σ → α → Prop} {P : σ → Prop}
    (step : ∀ m e t, P m → C m e → M.next m e = some t → P t) {t : σ} (hC : M.MeetsFrom C s es)
    (h : M.runFrom s es = some t) (hs : P s) : P t := by
  induction es generalizing s with
  | nil => exact Option.some.inj h ▸ hs
  | cons e es ih =>
    obtain ⟨m, hm, ht⟩ := runFrom_cons_iff.1 h
    obtain ⟨he, hrest⟩ := hC
    rw [hm] at hrest
    exact ih hrest ht (step s e m hs he hm)

variable (M)

/-- No state has an infinite run. -/
def Terminates : Prop := WellFounded fun t s => ∃ e, M.next s e = some t

variable {M}

theorem terminates_of_decreasing {β : Type} {r : β → β → Prop} (hr : WellFounded r) (μ : σ → β)
    (h : ∀ s e t, M.next s e = some t → r (μ t) (μ s)) : M.Terminates :=
  Subrelation.wf (fun {t s} => fun he => he.elim fun e he => h s e t he) (InvImage.wf μ hr)

end Machine

end Wdl
