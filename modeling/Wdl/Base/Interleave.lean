import Wdl.Base.Program
import Mathlib.Data.Nat.Notation

/-!
# Interleaved processes over a shared store

Any number of processes run programs over one store. They are interleaved call
by call, and each of them may stop at any point, which is how the crash of the
machine that runs it, or the loss of its connection, is seen from the store.

* A `System` gives the store (how a call changes it, and what it does on its own,
  such as letting time pass), the program of each kind of process, and when a
  process may be started.
* A `World` is the store with every process started so far. Processes that have
  returned or stopped are kept: the world remembers what was asked and answered.
* `Step` is one step of the world, with its label, and `ReachableWhen ok` is what
  can be reached by steps that meet the condition `ok`. `Reachable` is the case
  with no condition, and `StepsWhen ok w` is what can be reached from the world `w` on.
* `ReachableWhen.invariant` is the rule of invariants, and
  `ReachableWhen.emits` says that a process only makes the calls of its program.
-/

namespace Wdl

open Function

/-- Processes over a shared store of type `σ`: `κ` are the kinds of processes,
    with their parameters, `ε` the errors they fail with, `ρ` what they return, and
    `η` what the store and the environment do on their own. -/
structure System (I : Interface) (σ κ ε ρ η : Type) where
  /-- The program of the process with this number. No two processes share a
      number, so that it serves as a name that only this process has. -/
  body : ℕ → κ → Prog I ε ρ
  /-- A call of the store, with its answer and the store after it. -/
  call : (c : I.Call) → σ → I.Ans c → σ → Prop
  /-- What the environment does to the store. -/
  env : η → σ → σ → Prop

/-- A process: what it was started for, what is left of its program, and
    whether it still runs. -/
structure Process (I : Interface) (κ ε ρ : Type) where
  /-- What the process was started for. -/
  kind : κ
  /-- What is left of its program. -/
  prog : Prog I ε ρ
  /-- Whether it has not been stopped. -/
  live : Bool

/-- The store and every process started so far. -/
structure World (I : Interface) (σ κ ε ρ : Type) where
  /-- The shared store. -/
  store : σ
  /-- The processes, by their number. -/
  proc : ℕ → Option (Process I κ ε ρ)

/-- The label of a step of the world. -/
inductive Label (I : Interface) (κ η : Type)
  /-- The process `i` is started. -/
  | spawn (i : ℕ) (k : κ)
  /-- The process `i` makes a call, and this is the answer. -/
  | call (i : ℕ) (c : I.Call) (x : I.Ans c)
  /-- The process `i` stops: it crashes, or it had returned. -/
  | stop (i : ℕ)
  /-- The environment moves. -/
  | env (e : η)

variable {I : Interface} {σ κ ε ρ η : Type} {w : World I σ κ ε ρ}

namespace World

/-- The world with its process `i` replaced. -/
def setProc (w : World I σ κ ε ρ) (i : ℕ) (p : Process I κ ε ρ) : World I σ κ ε ρ :=
  { w with proc := update w.proc i (some p) }

@[simp] theorem setProc_store (w : World I σ κ ε ρ) (i : ℕ) (p : Process I κ ε ρ) :
    (w.setProc i p).store = w.store := rfl

@[simp] theorem setProc_proc_self (w : World I σ κ ε ρ) (i : ℕ) (p : Process I κ ε ρ) :
    (w.setProc i p).proc i = some p := update_self ..

theorem setProc_proc_ne (w : World I σ κ ε ρ) {i j : ℕ} (p : Process I κ ε ρ) (h : j ≠ i) :
    (w.setProc i p).proc j = w.proc j := update_of_ne h ..

theorem setProc_proc_ne_none {w : World I σ κ ε ρ} {i j : ℕ} {p : Process I κ ε ρ}
    (h : w.proc j ≠ none) : (w.setProc i p).proc j ≠ none := by
  by_cases hj : j = i
  · rw [hj, setProc_proc_self]
    exact Option.some_ne_none p
  · rwa [setProc_proc_ne w p hj]

@[simp] theorem setProc_setProc (w : World I σ κ ε ρ) (i : ℕ) (p q : Process I κ ε ρ) :
    (w.setProc i p).setProc i q = w.setProc i q := by
  rw [setProc, setProc, setProc, update_idem]

/-- A process of the new world is the replaced one, or was there before. -/
theorem setProc_cases {i j : ℕ} {p q : Process I κ ε ρ} (h : (w.setProc i p).proc j = some q) :
    (j = i ∧ q = p) ∨ (j ≠ i ∧ w.proc j = some q) := by
  by_cases hj : j = i
  · subst hj
    rw [setProc_proc_self] at h
    exact .inl ⟨rfl, (Option.some.inj h).symm⟩
  · rw [setProc_proc_ne w p hj] at h
    exact .inr ⟨hj, h⟩

end World

/-- The calls of one process, made one right after the other, lead from a program in
    a store to what is left of the program in another store. -/
inductive Prog.Runs {α : Type} (call : (c : I.Call) → σ → I.Ans c → σ → Prop) :
    Prog I ε α → σ → Prog I ε α → σ → Prop
  | refl {p : Prog I ε α} {s : σ} : Runs call p s p s
  | call {c : I.Call} {k : I.Ans c → Prog I ε α} {x : I.Ans c} {p : Prog I ε α} {s t u : σ}
      (hc : call c s x t) (h : Runs call (k x) t p u) : Runs call (.call c k) s p u

variable {α : Type} {call : (c : I.Call) → σ → I.Ans c → σ → Prop}

theorem Prog.Runs.trans {p q r : Prog I ε α} {s t u : σ} (h : p.Runs call s q t)
    (h' : q.Runs call t r u) : p.Runs call s r u := by
  induction h with
  | refl => exact h'
  | call hc _ ih => exact .call hc (ih h')

/-- Run a program alone for some calls, with a store that answers by a function. -/
def Prog.drive {α : Type} (answer : (c : I.Call) → σ → I.Ans c × σ) :
    Prog I ε α → ℕ → σ → Prog I ε α × σ
  | .call _ k, n + 1, s => let y := answer _ s; (k y.1).drive answer n y.2
  | p, _, s => (p, s)

theorem Prog.drive_runs {answer : (c : I.Call) → σ → I.Ans c × σ}
    (h : ∀ c s, call c s (answer c s).1 (answer c s).2) (n : ℕ) (p : Prog I ε α) (s : σ) :
    p.Runs call s (p.drive answer n s).1 (p.drive answer n s).2 := by
  induction n generalizing p s with
  | zero => cases p <;> exact .refl
  | succ n ih =>
    cases p with
    | ret | fail => exact .refl
    | call c k => exact .call (h c s) (ih (k (answer c s).1) (answer c s).2)

/-- The calls that a program makes on its own, for some calls, all meet a condition on the
    call and the store before it. -/
def Prog.DrivesWhen {α : Type} (P : I.Call → σ → Prop) (answer : (c : I.Call) → σ → I.Ans c × σ) :
    Prog I ε α → ℕ → σ → Prop
  | .call c k, n + 1, s =>
    P c s ∧ (k (answer c s).1).DrivesWhen P answer n (answer c s).2
  | _, _, _ => True

theorem Prog.DrivesWhen.runs {P : I.Call → σ → Prop} {answer : (c : I.Call) → σ → I.Ans c × σ}
    (hcall : ∀ c s, call c s (answer c s).1 (answer c s).2) {n : ℕ} {p : Prog I ε α} {s : σ}
    (h : p.DrivesWhen P answer n s) :
    p.Runs (fun c s x t => P c s ∧ call c s x t) s (p.drive answer n s).1
      (p.drive answer n s).2 := by
  induction n generalizing p s with
  | zero => cases p <;> exact .refl
  | succ n ih =>
    cases p with
    | ret | fail => exact .refl
    | call c k => exact .call ⟨h.1, hcall c s⟩ (ih h.2)

/-- The answers to its calls, in order, lead from a program to what is left of it. -/
inductive Prog.Trace {α : Type} :
    Prog I ε α → List ((c : I.Call) × I.Ans c) → Prog I ε α → Prop
  | nil {p : Prog I ε α} : Trace p [] p
  | cons {c : I.Call} {k : I.Ans c → Prog I ε α} {x : I.Ans c} {p : Prog I ε α}
      {tr : List ((c : I.Call) × I.Ans c)} (h : Trace (k x) tr p) :
      Trace (.call c k) (⟨c, x⟩ :: tr) p

variable {tr : List ((c : I.Call) × I.Ans c)}

theorem Prog.Trace.snoc {c : I.Call} {k : I.Ans c → Prog I ε α} {p q : Prog I ε α}
    (h : p.Trace tr q) (hq : q = .call c k) (x : I.Ans c) :
    p.Trace (tr ++ [⟨c, x⟩]) (k x) := by
  induction h with
  | nil => rw [hq]; exact .cons .nil
  | cons _ ih => exact .cons (ih hq)

/-- Every call the program can make satisfies `P`, which may also speak of the calls that
    were made before it and their answers. -/
def Prog.EmitsAfter {α : Type} (P : List ((c : I.Call) × I.Ans c) → I.Call → Prop) :
    List ((c : I.Call) × I.Ans c) → Prog I ε α → Prop
  | _, .ret _ => True
  | _, .fail _ => True
  | tr, .call c k => P tr c ∧ ∀ x, (k x).EmitsAfter P (tr ++ [⟨c, x⟩])

variable {P : List ((c : I.Call) × I.Ans c) → I.Call → Prop}

theorem Prog.EmitsAfter.bind {β : Type} {p : Prog I ε α} {f : α → Prog I ε β}
    (hp : p.EmitsAfter P tr) (hf : ∀ a tr, (f a).EmitsAfter P tr) : (p.bind f).EmitsAfter P tr := by
  induction p generalizing tr with
  | ret a => exact hf a tr
  | fail e => trivial
  | call c k ih => exact ⟨hp.1, fun x => ih x (hp.2 x)⟩

theorem Prog.EmitsAfter.trace {p q : Prog I ε α} {tr' : List ((c : I.Call) × I.Ans c)}
    (h : p.EmitsAfter P tr) (ht : p.Trace tr' q) : q.EmitsAfter P (tr ++ tr') := by
  induction ht generalizing tr with
  | nil => rwa [List.append_nil]
  | @cons c k x p tr' _ ih =>
    have hnext := ih (h.2 x)
    rwa [List.append_assoc] at hnext

namespace System

variable (S : System I σ κ ε ρ η)

/-- A step of the world. A live process makes its next call; a process may be
    started under any free number, and stopped at any time. -/
inductive Step : World I σ κ ε ρ → Label I κ η → World I σ κ ε ρ → Prop
  | spawn {w : World I σ κ ε ρ} (i : ℕ) (k : κ) (h : w.proc i = none) :
      Step w (.spawn i k) (w.setProc i ⟨k, S.body i k, true⟩)
  | call {w : World I σ κ ε ρ} (i : ℕ) {k : κ} {c : I.Call} {next : I.Ans c → Prog I ε ρ}
      {x : I.Ans c} {s : σ} (h : w.proc i = some ⟨k, .call c next, true⟩)
      (hc : S.call c w.store x s) :
      Step w (.call i c x) (({ w with store := s } : World I σ κ ε ρ).setProc i ⟨k, next x, true⟩)
  | stop {w : World I σ κ ε ρ} (i : ℕ) {p : Process I κ ε ρ} (h : w.proc i = some p) :
      Step w (.stop i) (w.setProc i { p with live := false })
  | env {w : World I σ κ ε ρ} (e : η) {s : σ} (h : S.env e w.store s) :
      Step w (.env e) { w with store := s }

/-- The worlds reached from a store in `init`, with no process yet, by steps
    that all meet the condition `ok`. -/
inductive ReachableWhen (init : σ → Prop) (ok : World I σ κ ε ρ → Label I κ η → Prop) :
    World I σ κ ε ρ → Prop
  | init {s : σ} (h : init s) : ReachableWhen init ok ⟨s, fun _ => none⟩
  | step {w w' : World I σ κ ε ρ} {l : Label I κ η} (h : ReachableWhen init ok w) (hok : ok w l)
      (hs : S.Step w l w') : ReachableWhen init ok w'

/-- The worlds reached from a store in `init`. -/
abbrev Reachable (init : σ → Prop) : World I σ κ ε ρ → Prop :=
  S.ReachableWhen init fun _ _ => True

/-- The worlds reached from a world on, by steps that all meet the condition `ok`. -/
inductive StepsWhen (ok : World I σ κ ε ρ → Label I κ η → Prop) (w : World I σ κ ε ρ) :
    World I σ κ ε ρ → Prop
  | refl : StepsWhen ok w w
  | step {u v : World I σ κ ε ρ} {l : Label I κ η} (h : StepsWhen ok w u) (hok : ok u l)
      (hs : S.Step u l v) : StepsWhen ok w v

variable {S} {init : σ → Prop} {ok ok' : World I σ κ ε ρ → Label I κ η → Prop}

/-- A property that holds at the start, and that every step meeting the
    condition keeps, holds in every reachable world. -/
theorem ReachableWhen.invariant {J : World I σ κ ε ρ → Prop}
    (hinit : ∀ s, init s → J ⟨s, fun _ => none⟩)
    (hstep : ∀ w l w', S.ReachableWhen init ok w → J w → ok w l → S.Step w l w' → J w')
    (h : S.ReachableWhen init ok w) : J w := by
  induction h with
  | init h => exact hinit _ h
  | step h hok hs ih => exact hstep _ _ _ h ih hok hs

theorem ReachableWhen.mono (h : ∀ w l, ok w l → ok' w l) (hw : S.ReachableWhen init ok w) :
    S.ReachableWhen init ok' w := by
  induction hw with
  | init hi => exact .init hi
  | step _ hok hs ih => exact .step ih (h _ _ hok) hs

variable {w' : World I σ κ ε ρ}

theorem ReachableWhen.steps (h : S.ReachableWhen init ok w)
    (h' : S.StepsWhen ok w w') : S.ReachableWhen init ok w' := by
  induction h' with
  | refl => exact h
  | step _ hok hs ih => exact .step ih hok hs

theorem ReachableWhen.exists_steps (h : S.ReachableWhen init ok w) :
    ∃ s, init s ∧ S.StepsWhen ok ⟨s, fun _ => none⟩ w := by
  induction h with
  | init h => exact ⟨_, h, .refl⟩
  | step _ hok hs ih =>
    obtain ⟨s, hs₀, hsteps⟩ := ih
    exact ⟨s, hs₀, .step hsteps hok hs⟩

/-- A run whose steps all move the store within `R` moves it within `R`. -/
theorem StepsWhen.store_rel {R : σ → σ → Prop} (hrefl : ∀ s, R s s)
    (htrans : ∀ s t u, R s t → R t u → R s u)
    (hR : ∀ u l v, S.StepsWhen ok w u → ok u l → S.Step u l v → R u.store v.store)
    (h : S.StepsWhen ok w w') : R w.store w'.store := by
  induction h with
  | refl => exact hrefl _
  | step h hok hs ih => exact htrans _ _ _ ih (hR _ _ _ h hok hs)

variable {i : ℕ} {k : κ} {f : ℕ → Option (Process I κ ε ρ)}

/-- A process may make some of its calls while the others do nothing, if these calls meet the
    condition. -/
theorem StepsWhen.runs_when {call : (c : I.Call) → σ → I.Ans c → σ → Prop}
    (hcall : ∀ s c x t p, call c s x t →
      S.call c s x t ∧ ok (World.setProc ⟨s, f⟩ i ⟨k, p, true⟩) (.call i c x))
    {p q : Prog I ε ρ} {s t : σ} (hr : p.Runs call s q t)
    (h : S.StepsWhen ok w (World.setProc ⟨s, f⟩ i ⟨k, p, true⟩)) :
    S.StepsWhen ok w (World.setProc ⟨t, f⟩ i ⟨k, q, true⟩) := by
  induction hr with
  | refl => exact h
  | @call c next x p s t u hc _ ih =>
    let w' : World I σ κ ε ρ := World.setProc ⟨s, f⟩ i ⟨k, .call c next, true⟩
    have hi : w'.proc i = some ⟨k, .call c next, true⟩ := World.setProc_proc_self ..
    obtain ⟨hc, hok⟩ := hcall s c x t (.call c next) hc
    have hnext := h.step hok (.call i hi hc)
    refine ih ?_
    rw [← World.setProc_setProc ⟨t, f⟩ i ⟨k, .call c next, true⟩]
    exact hnext

theorem StepsWhen.runs (hok : ∀ w i c x, ok w (.call i c x)) {p q : Prog I ε ρ} {s t : σ}
    (hr : p.Runs S.call s q t) (h : S.StepsWhen ok w (World.setProc ⟨s, f⟩ i ⟨k, p, true⟩)) :
    S.StepsWhen ok w (World.setProc ⟨t, f⟩ i ⟨k, q, true⟩) :=
  runs_when (fun _ c x _ _ hc => ⟨hc, hok _ i c x⟩) hr h

/-- A process that has made some calls may go on while the others do nothing. -/
theorem StepsWhen.resume (hcalls : ∀ w i c x, ok w (.call i c x)) {p q : Prog I ε ρ} {t : σ}
    (h : S.StepsWhen ok w w') (hi : w'.proc i = some ⟨k, p, true⟩)
    (hr : p.Runs S.call w'.store q t) :
    S.StepsWhen ok w (World.setProc ⟨t, w'.proc⟩ i ⟨k, q, true⟩) := by
  refine .runs hcalls hr ?_
  rwa [World.setProc, ← hi, update_eq_self]

/-- A process may be started, and make some of its calls while the others do nothing. -/
theorem StepsWhen.start (hcalls : ∀ w i c x, ok w (.call i c x)) {q : Prog I ε ρ}
    {t : σ} (h : S.StepsWhen ok w w') (hi : w'.proc i = none)
    (hok : ok w' (.spawn i k)) (hr : (S.body i k).Runs S.call w'.store q t) :
    S.StepsWhen ok w (World.setProc ⟨t, w'.proc⟩ i ⟨k, q, true⟩) :=
  StepsWhen.runs hcalls hr (h.step hok (.spawn i k hi))

theorem StepsWhen.drives {P : I.Call → σ → Prop} (hP : ∀ w i c x, P c w.store → ok w (.call i c x))
    {answer : (c : I.Call) → σ → I.Ans c × σ}
    (hcall : ∀ c s, S.call c s (answer c s).1 (answer c s).2) {n : ℕ} {p : Prog I ε ρ} {s : σ}
    (hp : p.DrivesWhen P answer n s) (h : S.StepsWhen ok w (World.setProc ⟨s, f⟩ i ⟨k, p, true⟩)) :
    S.StepsWhen ok w
      (World.setProc ⟨(p.drive answer n s).2, f⟩ i ⟨k, (p.drive answer n s).1, true⟩) :=
  runs_when (fun _ c x _ _ hc => ⟨hc.2, hP _ i c x hc.1⟩) (hp.runs hcall) h

/-- What is left of a program is what its calls and their answers lead to. -/
theorem ReachableWhen.trace (h : S.ReachableWhen init ok w) {p : Process I κ ε ρ}
    (hp : w.proc i = some p) : ∃ tr, (S.body i p.kind).Trace tr p.prog := by
  induction h generalizing i p with
  | init h => exact absurd hp (by simp)
  | step h hok hs ih =>
    cases hs with
    | spawn j k hj =>
      rcases World.setProc_cases hp with ⟨rfl, rfl⟩ | ⟨-, hp⟩
      · exact ⟨[], .nil⟩
      · exact ih hp
    | @call j k c next x s hj hc =>
      rcases World.setProc_cases hp with ⟨rfl, rfl⟩ | ⟨-, hp⟩
      · obtain ⟨tr, htr⟩ := ih hj
        exact ⟨_, htr.snoc rfl x⟩
      · exact ih hp
    | stop j hj =>
      rcases World.setProc_cases hp with ⟨rfl, rfl⟩ | ⟨-, hp⟩
      · have htr := ih hj
        exact htr
      · exact ih hp
    | env e he => exact ih hp

variable {P : ℕ → κ → I.Call → Prop} {A : (c : I.Call) → I.Ans c → Prop}

/-- A process only makes calls of its program. -/
theorem ReachableWhen.emits (hA : ∀ c s x s', S.call c s x s' → A c x)
    (hP : ∀ i k, (S.body i k).Emits A (P i k)) (h : S.ReachableWhen init ok w) {p : Process I κ ε ρ}
    (hp : w.proc i = some p) : p.prog.Emits A (P i p.kind) := by
  induction h generalizing i p with
  | init h => exact absurd hp (by simp)
  | step h hok hs ih =>
    cases hs with
    | spawn j k hj =>
      rcases World.setProc_cases hp with ⟨rfl, rfl⟩ | ⟨-, hp⟩
      · exact hP i k
      · exact ih hp
    | call j hj hc =>
      rcases World.setProc_cases hp with ⟨rfl, rfl⟩ | ⟨-, hp⟩
      · exact (ih hj).2 _ (hA _ _ _ _ hc)
      · exact ih hp
    | stop j hj =>
      rcases World.setProc_cases hp with ⟨rfl, rfl⟩ | ⟨-, hp⟩
      · have hq := ih hj
        exact hq
      · exact ih hp
    | env e he => exact ih hp

/-- A property of the store that the calls of the programs and the environment
    keep holds in every reachable world. -/
theorem ReachableWhen.store_invariant {J : σ → Prop} (hA : ∀ c s x s', S.call c s x s' → A c x)
    (hP : ∀ i k, (S.body i k).Emits A (P i k)) (hinit : ∀ s, init s → J s)
    (hcall : ∀ i k c s x s', P i k c → J s → S.call c s x s' → J s')
    (henv : ∀ e s s', J s → S.env e s s' → J s') (h : S.ReachableWhen init ok w) : J w.store := by
  induction h with
  | init h => exact hinit _ h
  | step hw hok hs ih =>
    cases hs with
    | spawn i k hi => exact ih
    | call i hi hc => exact hcall _ _ _ _ _ _ (hw.emits hA hP hi).1 ih hc
    | stop i hi => exact ih
    | env e he => exact henv _ _ _ ih he

end System

end Wdl
