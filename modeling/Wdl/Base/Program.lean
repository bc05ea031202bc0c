import Mathlib.Logic.Function.Basic

/-!
# Programs that call a shared store

A service process is a sequential program whose only effects are calls to a
store shared with other processes: each call is one atomic action of the store,
and between two calls anything may happen to it.

* An `Interface` lists the calls and the type of the answer to each.
* A program (`Prog`) returns, fails with an error, or makes a call and goes on
  with the answer. Programs are a monad with exceptions, so that a process is
  written as a `do` block, and `Prog.attempt` hands the error of a program to the
  one that runs it.
* `Prog.Emits A P p` says that every call the program can ever make satisfies `P`,
  whatever the answers are, as long as they satisfy `A`. It is compositional
  (`Prog.Emits.bind`).
* `Prog.FailsWith E p` says that the program can only fail with the errors of `E`.
-/

namespace Wdl

/-- The calls that can be made to a store, and the answers to each of them. -/
structure Interface where
  /-- A call, with its arguments. -/
  Call : Type
  /-- What the store answers to a call. -/
  Ans : Call → Type

/-- A sequential program over an interface, that returns a value of type `α` or
    fails with an error of type `ε`. -/
inductive Prog (I : Interface) (ε α : Type) : Type
  /-- The program has returned. -/
  | ret (a : α) : Prog I ε α
  /-- The program has failed. -/
  | fail (e : ε) : Prog I ε α
  /-- The program makes a call, and goes on with its answer. -/
  | call (c : I.Call) (k : I.Ans c → Prog I ε α) : Prog I ε α

namespace Prog

variable {I : Interface} {ε δ α β : Type}

/-- Run a program, then go on with what it returns. -/
def bind : Prog I ε α → (α → Prog I ε β) → Prog I ε β
  | .ret a, f => f a
  | .fail e, _ => .fail e
  | .call c k, f => .call c fun x => (k x).bind f

instance : Monad (Prog I ε) where
  pure := .ret
  bind := bind

/-- The program that makes one call and returns its answer. -/
def perform (c : I.Call) : Prog I ε (I.Ans c) := .call c .ret

/-- Run a program and return its value or its error. -/
def attempt : Prog I ε α → Prog I δ (Except ε α)
  | .ret a => .ret (.ok a)
  | .fail e => .ret (.error e)
  | .call c k => .call c fun x => (k x).attempt

/-- Run a program for each member of a list, one after the other. -/
def forEach : List β → (β → Prog I ε α) → Prog I ε (List α)
  | [], _ => .ret []
  | b :: l, f => (f b).bind fun a => (forEach l f).bind fun as => .ret (a :: as)

@[simp] theorem bind_eq (p : Prog I ε α) (f : α → Prog I ε β) : p >>= f = p.bind f := rfl

theorem bind_assoc {γ : Type} (p : Prog I ε α) (f : α → Prog I ε β) (g : β → Prog I ε γ) :
    (p.bind f).bind g = p.bind fun a => (f a).bind g := by
  induction p with
  | ret a => rfl
  | fail e => rfl
  | call c k ih => exact congrArg (call c) (funext ih)

/-! ## The calls of a program -/

/-- Every call the program can make satisfies `P`, whatever the answers are among
    those that satisfy `A`. -/
def Emits (A : (c : I.Call) → I.Ans c → Prop) (P : I.Call → Prop) : Prog I ε α → Prop
  | .ret _ => True
  | .fail _ => True
  | .call c k => P c ∧ ∀ x, A c x → (k x).Emits A P

variable {A : (c : I.Call) → I.Ans c → Prop} {P P' : I.Call → Prop}

@[simp] theorem emits_fail (e : ε) : Emits A P (fail e : Prog I ε α) := trivial

@[simp] theorem emits_perform (c : I.Call) : Emits A P (perform c : Prog I ε _) ↔ P c :=
  ⟨fun h => h.1, fun h => ⟨h, fun _ _ => trivial⟩⟩

variable {p : Prog I ε α}

theorem Emits.bind {f : α → Prog I ε β} (hp : p.Emits A P)
    (hf : ∀ a, (f a).Emits A P) : (p.bind f).Emits A P := by
  induction p with
  | ret a => exact hf a
  | fail e => trivial
  | call c k ih => exact ⟨hp.1, fun x hx => ih x (hp.2 x hx)⟩

theorem Emits.attempt (hp : p.Emits A P) :
    (p.attempt : Prog I δ (Except ε α)).Emits A P := by
  induction p with
  | ret | fail => trivial
  | call c k ih => exact ⟨hp.1, fun x hx => ih x (hp.2 x hx)⟩

theorem Emits.mono (h : p.Emits A P) (hP : ∀ c, P c → P' c) : p.Emits A P' := by
  induction p with
  | ret | fail => trivial
  | call c k ih => exact ⟨hP c h.1, fun x hx => ih x (h.2 x hx)⟩

/-! ## The errors of a program -/

/-- Whatever the answers are, the program can only fail with errors of `E`. -/
def FailsWith (E : ε → Prop) : Prog I ε α → Prop
  | .ret _ => True
  | .fail e => E e
  | .call _ k => ∀ x, (k x).FailsWith E

variable {E : ε → Prop}

theorem failsWith_of_forall (h : ∀ e, E e) : p.FailsWith E := by
  induction p with
  | ret => trivial
  | fail e => exact h e
  | call c k ih => exact ih

theorem FailsWith.bind {f : α → Prog I ε β} (hp : p.FailsWith E) (hf : ∀ a, (f a).FailsWith E) :
    (p.bind f).FailsWith E := by
  induction p with
  | ret a => exact hf a
  | fail e => exact hp
  | call c k ih => exact fun x => ih x (hp x)

theorem FailsWith.forEach {l : List β} {f : β → Prog I ε α} (hf : ∀ b, (f b).FailsWith E) :
    (Prog.forEach l f).FailsWith E := by
  induction l with
  | nil => trivial
  | cons b l ih => exact (hf b).bind fun _ => ih.bind fun _ => trivial

end Prog

end Wdl
