import Wdl.Base.Interleave

/-!
# Systems that keep a record

A property of whole runs, such as "between any two deletions there is at most one
creation", is a property of what has happened and not of the store. `System.recorded`
is a system whose store also holds a list of marks, to which every call may add some,
depending on what it did to the store. No program can read the marks.

The two systems have the same runs: a run of the recorded system is one of the system
when the marks are forgotten (`ReachableWhen.forget`), and every run of the system is
found in this way (`ReachableWhen.exists_recorded`). So what is proved of the recorded
system is proved of the system, with words for its past.
-/

namespace Wdl

/-- A store together with the marks of what has happened, the last one first. -/
structure Recorded (σ μ : Type) where
  now : σ
  past : List μ

variable {I : Interface} {σ κ ε ρ η μ : Type}

/-- The system whose store also records what its calls have done. -/
def System.recorded (S : System I σ κ ε ρ η) (record : I.Call → σ → σ → List μ) :
    System I (Recorded σ μ) κ ε ρ η where
  body := S.body
  call c s x t := S.call c s.now x t.now ∧ t.past = record c s.now t.now ++ s.past
  env e s t := S.env e s.now t.now ∧ t.past = s.past

/-- The world without the record. -/
def World.forget (w : World I (Recorded σ μ) κ ε ρ) : World I σ κ ε ρ := ⟨w.store.now, w.proc⟩

namespace System

variable {S : System I σ κ ε ρ η} {record : I.Call → σ → σ → List μ}
  {w : World I (Recorded σ μ) κ ε ρ} {l : Label I κ η}

theorem Step.forget {w' : World I (Recorded σ μ) κ ε ρ} (h : (S.recorded record).Step w l w') :
    S.Step w.forget l w'.forget := by
  cases h with
  | spawn i k hi => exact .spawn i k hi
  | call i hi hc => exact .call i hi hc.1
  | stop i hi => exact .stop i hi
  | env e he => exact .env e he.1

variable {v : World I σ κ ε ρ}

theorem Step.exists_recorded (h : S.Step w.forget l v) :
    ∃ w', (S.recorded record).Step w l w' ∧ w'.forget = v := by
  obtain ⟨⟨s, past⟩, proc⟩ := w
  cases h with
  | spawn i k hi => exact ⟨_, .spawn i k hi, rfl⟩
  | @call i k c next x t hi hc =>
    have hcall : (S.recorded record).call c ⟨s, past⟩ x ⟨t, record c s t ++ past⟩ := ⟨hc, rfl⟩
    exact ⟨_, .call i hi hcall, rfl⟩
  | stop i hi => exact ⟨_, .stop i hi, rfl⟩
  | @env e t he =>
    have henv : (S.recorded record).env e ⟨s, past⟩ ⟨t, past⟩ := ⟨he, rfl⟩
    exact ⟨_, .env e henv, rfl⟩

variable {init : σ → Prop} {ok : World I σ κ ε ρ → Label I κ η → Prop}

/-- The stores from which the recorded system starts: nothing has happened yet. -/
def Unrecorded (init : σ → Prop) (s : Recorded σ μ) : Prop := init s.now ∧ s.past = []

theorem ReachableWhen.forget
    (h : (S.recorded record).ReachableWhen (Unrecorded init) (fun w l => ok w.forget l) w) :
    S.ReachableWhen init ok w.forget := by
  induction h with
  | init h => exact .init h.1
  | step _ hok hs ih => exact .step ih hok hs.forget

theorem ReachableWhen.exists_recorded (h : S.ReachableWhen init ok v) :
    ∃ w, (S.recorded record).ReachableWhen (Unrecorded init) (fun w l => ok w.forget l) w ∧
      w.forget = v := by
  induction h with
  | @init s h => exact ⟨⟨⟨s, []⟩, fun _ => none⟩, .init ⟨h, rfl⟩, rfl⟩
  | step _ hok hs ih =>
    obtain ⟨w, hw, rfl⟩ := ih
    obtain ⟨w', hstep, rfl⟩ := @Step.exists_recorded _ _ _ _ _ _ _ _ record _ _ _ hs
    exact ⟨w', .step hw hok hstep, rfl⟩

end System

end Wdl
