import Wdl.Base.Interleave

/-!
# Rely-guarantee reasoning for interleaved programs

A process is verified on its own, against what the others may do between its
calls (its *rely*) and against what it promises to do in its own calls (its
*guarantee*). When the guarantee of each running process implies the relies of
the others, what was proved of each of them holds of all of them together.

* `Prog.Safe call R G Q p s`: from the store `s`, with the others moving within
  `R`, every call of `p` is within `G`, and what it returns satisfies `Q`. It is
  stable under the rely (`Prog.Safe.stable`) and compositional
  (`Prog.Safe.bind`, `Prog.Safe.attempt`).
* `Prog.SafeFrom A`: the same from every store in which the assertion `A` holds, with
  one rule for each form of program.
* `System.RelyGuarantee.holds`: the rule of parallel composition. From it,
  `System.RelyGuarantee.call_guar` says that each call of a reachable world is within
  the guarantee of its process, and `System.RelyGuarantee.store_invariant` is the rule
  of invariants for what guarantees keep. `System.RelyGuarantee.safe_post` is the rule for
  what processes end with.
* `System.StepsWhen.safe`: the rule for what a process returns, once it is known how the
  run as a whole moves the store.
* `Prog.FailsUnder call R E p s`: the program can only fail with errors of `E` when what the
  others do is known from the call that comes next. `System.ReachableWhen.failsUnder` is the
  rule for runs.
-/

namespace Wdl

open World

variable {I : Interface} {σ κ ε δ α β ρ η : Type} {p : Prog I ε α} {s : σ}

namespace Prog

/-- From the store `s`, with the other processes moving within `R`, every call of
    the program is within `G`, and its outcome satisfies `Q`. -/
def Safe (call : (c : I.Call) → σ → I.Ans c → σ → Prop) (R G : σ → σ → Prop)
    (Q : Except ε α → σ → Prop) : Prog I ε α → σ → Prop
  | .ret a, s => ∀ t, R s t → Q (.ok a) t
  | .fail e, s => ∀ t, R s t → Q (.error e) t
  | .call c k, s => ∀ t, R s t → ∀ x u, call c t x u → G t u ∧ (k x).Safe call R G Q u

variable {call : (c : I.Call) → σ → I.Ans c → σ → Prop} {R G : σ → σ → Prop}
  {Q Q' : Except ε α → σ → Prop}

theorem Safe.stable (htrans : ∀ s t u, R s t → R t u → R s u) {t : σ} (h : p.Safe call R G Q s)
    (hst : R s t) : p.Safe call R G Q t := by
  cases p with
  | ret | fail | call => exact fun u hu => h u (htrans _ _ _ hst hu)

theorem Safe.mono (h : p.Safe call R G Q s) (hQ : ∀ r s, Q r s → Q' r s) :
    p.Safe call R G Q' s := by
  induction p generalizing s with
  | ret | fail => exact fun t ht => hQ _ _ (h t ht)
  | call c k ih => exact fun t ht x u hu => ⟨(h t ht x u hu).1, ih x (h t ht x u hu).2⟩

variable {f : α → Prog I ε β}

/-- A sequence is safe when its first part is, with the rest as postcondition. -/
theorem Safe.bind (hrefl : ∀ s, R s s) {Q : Except ε β → σ → Prop}
    (h : p.Safe call R G
      (fun r t => match r with | .ok a => (f a).Safe call R G Q t | .error e => Q (.error e) t) s) :
    (p.bind f).Safe call R G Q s := by
  induction p generalizing s with
  | ret a => exact h s (hrefl s)
  | fail e => exact h
  | call c k ih => exact fun t ht x u hu => ⟨(h t ht x u hu).1, ih x (h t ht x u hu).2⟩

/-- A program that goes on by returning a function of what it got. -/
theorem Safe.map {g : α → β} {Q : Except ε β → σ → Prop}
    (h : p.Safe call R G (fun r t => Q (r.map g) t) s) :
    (p.bind fun a => .ret (g a)).Safe call R G Q s := by
  induction p generalizing s with
  | ret | fail => exact h
  | call c k ih => exact fun t ht x u hu => ⟨(h t ht x u hu).1, ih x (h t ht x u hu).2⟩

theorem Safe.attempt {Q : Except δ (Except ε α) → σ → Prop}
    (h : p.Safe call R G (fun r t => Q (.ok r) t) s) :
    (p.attempt : Prog I δ (Except ε α)).Safe call R G Q s := by
  induction p generalizing s with
  | ret | fail => exact h
  | call c k ih => exact fun t ht x u hu => ⟨(h t ht x u hu).1, ih x (h t ht x u hu).2⟩

/-- A program that only emits calls which the guarantee covers in every store is
    safe, whatever the others do. -/
theorem Safe.of_emits {A : (c : I.Call) → I.Ans c → Prop} {P : I.Call → Prop}
    (hA : ∀ c s x t, call c s x t → A c x) (hP : ∀ c s x t, P c → call c s x t → G s t)
    (h : p.Emits A P) (s : σ) : p.Safe call R G (fun _ _ => True) s := by
  induction p generalizing s with
  | ret | fail => exact fun _ _ => trivial
  | call c k ih => exact fun t _ x u hu => ⟨hP c t x u h.1 hu, ih x (h.2 x (hA c t x u hu)) u⟩

/-- The program is safe from every store in which the assertion `A` holds. -/
def SafeFrom (call : (c : I.Call) → σ → I.Ans c → σ → Prop) (R G : σ → σ → Prop)
    (Q : Except ε α → σ → Prop) (A : σ → Prop) (p : Prog I ε α) : Prop :=
  ∀ s, A s → p.Safe call R G Q s

variable {A : σ → Prop}

theorem SafeFrom.ret {a : α} (hA : ∀ s t, A s → R s t → A t) (h : ∀ s, A s → Q (.ok a) s) :
    (ret a : Prog I ε α).SafeFrom call R G Q A :=
  fun s hs t ht => h t (hA s t hs ht)

theorem SafeFrom.fail {e : ε} (hA : ∀ s t, A s → R s t → A t) (h : ∀ s, A s → Q (.error e) s) :
    (fail e : Prog I ε α).SafeFrom call R G Q A :=
  fun s hs t ht => h t (hA s t hs ht)

/-- A call takes the assertion before it, which is stable, to one that may depend on
    the answer. -/
theorem SafeFrom.of_call {c : I.Call} {k : I.Ans c → Prog I ε α} {B : I.Ans c → σ → Prop}
    (hA : ∀ s t, A s → R s t → A t)
    (hc : ∀ s x t, A s → call c s x t → G s t ∧ B x t)
    (hk : ∀ x, (k x).SafeFrom call R G Q (B x)) : (Prog.call c k).SafeFrom call R G Q A := by
  intro s hs t ht x u hu
  obtain ⟨hg, hb⟩ := hc t x u (hA s t hs ht) hu
  exact ⟨hg, hk x u hb⟩

theorem SafeFrom.mono {A' : σ → Prop} (h : p.SafeFrom call R G Q A) (hA : ∀ s, A' s → A s) :
    p.SafeFrom call R G Q A' := fun s hs => h s (hA s hs)

/-- A sequence goes on from what its first part returns. -/
theorem SafeFrom.bind (hrefl : ∀ s, R s s) {Q : Except ε β → σ → Prop}
    {B : α → σ → Prop}
    (hp : p.SafeFrom call R G
      (fun r t => match r with | .ok a => B a t | .error e => Q (.error e) t) A)
    (hf : ∀ a, (f a).SafeFrom call R G Q (B a)) : (p.bind f).SafeFrom call R G Q A := by
  intro s hs
  refine .bind hrefl ((hp s hs).mono fun r t h => ?_)
  cases r with
  | ok a => exact hf a t h
  | error e => exact h

/-- The calls that move the store within `R`. -/
def Within (call : (c : I.Call) → σ → I.Ans c → σ → Prop) (R : σ → σ → Prop) (c : I.Call) (s : σ)
    (x : I.Ans c) (t : σ) : Prop := call c s x t ∧ R s t

/-- What is left of a safe program after calls that leave the store as it is. -/
theorem Safe.of_trace (hrefl : ∀ s, R s s) {q : Prog I ε α} {tr : List ((c : I.Call) × I.Ans c)}
    (h : p.Safe call R G Q s) (ht : p.Trace tr q) (hcall : ∀ e ∈ tr, call e.1 s e.2 s) :
    q.Safe call R G Q s := by
  induction ht with
  | nil => exact h
  | @cons c k x p tr _ ih =>
    obtain ⟨hhead, htail⟩ := List.forall_mem_cons.1 hcall
    exact ih (h s (hrefl s) x s hhead).2 htail

/-- From the store `s`, the program can only fail with errors of `E`, when the others move the
    store within `R c` before it makes the call `c`. -/
def FailsUnder (call : (c : I.Call) → σ → I.Ans c → σ → Prop) (R : I.Call → σ → σ → Prop)
    (E : ε → Prop) : Prog I ε α → σ → Prop
  | .ret _, _ => True
  | .fail e, _ => E e
  | .call c k, s => ∀ t, R c s t → ∀ x u, call c t x u → (k x).FailsUnder call R E u

section FailsUnder

variable {R : I.Call → σ → σ → Prop} {E : ε → Prop}

theorem FailsWith.under (h : p.FailsWith E) (s : σ) : p.FailsUnder call R E s := by
  induction p generalizing s with
  | ret | fail => exact h
  | call c k ih => exact fun t _ x u _ => ih x (h x) u

theorem FailsUnder.bind (hp : p.FailsUnder call R E s)
    (hf : ∀ a t, (f a).FailsUnder call R E t) : (p.bind f).FailsUnder call R E s := by
  induction p generalizing s with
  | ret a => exact hf a s
  | fail e => exact hp
  | call c k ih => exact fun t ht x u hu => ih x (hp t ht x u hu)

/-- An error that does not end the program is one of `E`. -/
theorem FailsUnder.attempt_bind {f : Except ε α → Prog I ε β} (hp : p.FailsUnder call R E s)
    (hok : ∀ a t, (f (.ok a)).FailsUnder call R E t)
    (herror : ∀ e t, E e → (f (.error e)).FailsUnder call R E t) :
    ((p.attempt : Prog I ε (Except ε α)).bind f).FailsUnder call R E s := by
  induction p generalizing s with
  | ret a => exact hok a s
  | fail e => exact herror e s hp
  | call c k ih => exact fun t ht x u hu => ih x (hp t ht x u hu)

theorem FailsUnder.stable (htrans : ∀ c s t u, R c s t → R c t u → R c s u) {t : σ}
    (h : p.FailsUnder call R E s) (hst : ∀ c k, p = .call c k → R c s t) :
    p.FailsUnder call R E t := by
  cases p with
  | ret | fail => exact h
  | call c k => exact fun u hu => h u (htrans c s t u (hst c k rfl) hu)

end FailsUnder

/-- What a program has returned or failed with, if it has. -/
def outcome : Prog I ε α → Option (Except ε α)
  | .ret a => some (.ok a)
  | .fail e => some (.error e)
  | .call _ _ => none

theorem Safe.outcome (hrefl : ∀ s, R s s) {r : Except ε α} (h : p.Safe call R G Q s)
    (hr : p.outcome = some r) : Q r s := by
  cases p with
  | ret | fail => obtain rfl := Option.some.inj hr; exact h s (hrefl s)
  | call c next => cases hr

theorem FailsUnder.outcome {R : I.Call → σ → σ → Prop} {E : ε → Prop} {e : ε}
    (h : p.FailsUnder call R E s) (he : p.outcome = some (.error e)) : E e := by
  cases p with
  | ret => cases he
  | fail => cases he; exact h
  | call c next => cases he

end Prog

/-- The process still has calls to make. -/
def Process.Running (p : Process I κ ε ρ) : Prop := p.live = true ∧ p.prog.outcome = none

variable {w : World I σ κ ε ρ}

namespace System

variable {S : System I σ κ ε ρ η} {init : σ → Prop} {ok : World I σ κ ε ρ → Label I κ η → Prop}

/-- A rely-guarantee proof for the processes of a system: an invariant of the store, a
    rely and a guarantee for each process, and when two processes may run at once. -/
structure RelyGuarantee (S : System I σ κ ε ρ η) (init : σ → Prop)
    (ok : World I σ κ ε ρ → Label I κ η → Prop) where
  /-- The invariant of the store. -/
  inv : σ → Prop
  /-- What the others may do while a process runs. -/
  rely : ℕ → κ → σ → σ → Prop
  /-- What a process does in its calls. -/
  guar : ℕ → κ → σ → σ → Prop
  /-- Which processes may run at once. -/
  compat : ℕ → κ → ℕ → κ → Prop
  inv_init : ∀ s, init s → inv s
  rely_refl : ∀ i k s, rely i k s s
  rely_trans : ∀ i k s t u, rely i k s t → rely i k t u → rely i k s u
  guar_inv : ∀ i k s t, inv s → guar i k s t → inv t
  guar_rely : ∀ i k j k' s t, i ≠ j → compat i k j k' → inv s → guar i k s t → rely j k' s t
  env_inv : ∀ w e t, ok w (.env e) → inv w.store → S.env e w.store t → inv t
  env_rely : ∀ w e t i k, ok w (.env e) → inv w.store → S.env e w.store t → rely i k w.store t
  /-- A process is only started next to processes it is compatible with. -/
  spawn_compat : ∀ w i k, S.ReachableWhen init ok w → w.proc i = none → ok w (.spawn i k) →
    ∀ j p, w.proc j = some p → p.Running → compat i k j p.kind ∧ compat j p.kind i k
  /-- A process is safe when it is started. -/
  spawn_safe : ∀ w i k, S.ReachableWhen init ok w → inv w.store → w.proc i = none →
    ok w (.spawn i k) → (S.body i k).Safe S.call (rely i k) (guar i k) (fun _ _ => True) w.store

namespace RelyGuarantee

variable (P : RelyGuarantee S init ok)

/-- What the proof says of a world: the invariant, and that running processes are safe
    and compatible. -/
structure Holds (w : World I σ κ ε ρ) : Prop where
  inv : P.inv w.store
  safe : ∀ i p, w.proc i = some p → p.Running →
    p.prog.Safe S.call (P.rely i p.kind) (P.guar i p.kind) (fun _ _ => True) w.store
  compat : ∀ i j p q, i ≠ j → w.proc i = some p → w.proc j = some q → p.Running → q.Running →
    P.compat i p.kind j q.kind

variable {P} {i : ℕ} {k : κ}

theorem Holds.spawn (hw : S.ReachableWhen init ok w) (h : P.Holds w) (hi : w.proc i = none)
    (hok : ok w (.spawn i k)) : P.Holds (w.setProc i ⟨k, S.body i k, true⟩) := by
  have hcomp := P.spawn_compat w i k hw hi hok
  refine ⟨h.inv, ?_, ?_⟩
  · intro j p hp hrun
    rcases setProc_cases hp with ⟨rfl, rfl⟩ | ⟨-, hp⟩
    · exact P.spawn_safe w j k hw h.inv hi hok
    · exact h.safe j p hp hrun
  · intro j j' p q hne hp hq hrp hrq
    rcases setProc_cases hp with ⟨rfl, rfl⟩ | ⟨-, hp'⟩
    · rcases setProc_cases hq with ⟨rfl, -⟩ | ⟨-, hq'⟩
      · exact absurd rfl hne
      · exact (hcomp _ _ hq' hrq).1
    · rcases setProc_cases hq with ⟨rfl, rfl⟩ | ⟨-, hq'⟩
      · exact (hcomp _ _ hp' hrp).2
      · exact h.compat j j' p q hne hp' hq' hrp hrq

variable {c : I.Call} {x : I.Ans c}

theorem Holds.call (h : P.Holds w) {next : I.Ans c → Prog I ε ρ}
    (hi : w.proc i = some ⟨k, .call c next, true⟩) (hc : S.call c w.store x s) :
    P.Holds (({ w with store := s } : World I σ κ ε ρ).setProc i ⟨k, next x, true⟩) := by
  have hrun : (⟨k, .call c next, true⟩ : Process I κ ε ρ).Running := ⟨rfl, rfl⟩
  obtain ⟨hg, hnext⟩ := h.safe i _ hi hrun w.store (P.rely_refl i k _) x s hc
  refine ⟨P.guar_inv i k _ _ h.inv hg, ?_, ?_⟩
  · intro j p hp hrp
    rcases setProc_cases hp with ⟨rfl, rfl⟩ | ⟨hne, hp⟩
    · exact hnext
    -- another process: the call is within its rely
    · have hcomp := h.compat i j _ p (Ne.symm hne) hi hp hrun hrp
      have hrely := P.guar_rely i k _ _ _ _ (Ne.symm hne) hcomp h.inv hg
      exact (h.safe j p hp hrp).stable (P.rely_trans _ _) hrely
  · intro j j' p q hne hp hq hrp hrq
    rcases setProc_cases hp with ⟨rfl, rfl⟩ | ⟨-, hp'⟩
    · rcases setProc_cases hq with ⟨rfl, -⟩ | ⟨-, hq'⟩
      · exact absurd rfl hne
      · have hcomp := h.compat _ _ _ q hne hi hq' hrun hrq
        exact hcomp
    · rcases setProc_cases hq with ⟨rfl, rfl⟩ | ⟨-, hq'⟩
      · have hcomp := h.compat _ _ p _ hne hp' hi hrp hrun
        exact hcomp
      · exact h.compat j j' p q hne hp' hq' hrp hrq

theorem Holds.stop (h : P.Holds w) (i : ℕ) (p : Process I κ ε ρ) :
    P.Holds (w.setProc i { p with live := false }) := by
  have hdead : ¬ ({ p with live := false } : Process I κ ε ρ).Running :=
    fun h => Bool.false_ne_true h.1
  refine ⟨h.inv, ?_, ?_⟩
  · intro j q hq hrq
    rcases setProc_cases hq with ⟨-, rfl⟩ | ⟨-, hq⟩
    · exact absurd hrq hdead
    · exact h.safe j q hq hrq
  · intro j j' q q' hne hq hq' hrq hrq'
    rcases setProc_cases hq with ⟨-, rfl⟩ | ⟨-, hq⟩
    · exact absurd hrq hdead
    · rcases setProc_cases hq' with ⟨-, rfl⟩ | ⟨-, hq'⟩
      · exact absurd hrq' hdead
      · exact h.compat j j' q q' hne hq hq' hrq hrq'

variable (P)

/-- **Parallel composition.** What a rely-guarantee proof says holds in every
    reachable world. -/
theorem holds (h : S.ReachableWhen init ok w) : P.Holds w := by
  induction h with
  | init h =>
    exact ⟨P.inv_init _ h, fun _ _ hp => absurd hp (by simp),
      fun _ _ _ _ _ hp => absurd hp (by simp)⟩
  | step hw hok hs ih =>
    cases hs with
    | spawn i k hi => exact ih.spawn hw hi hok
    | call i hi hc => exact ih.call hi hc
    | stop i hi => exact ih.stop i _
    | env e he =>
      refine ⟨P.env_inv _ e _ hok ih.inv he, fun i p hp hrun => ?_, ih.compat⟩
      exact (ih.safe i p hp hrun).stable (P.rely_trans _ _) (P.env_rely _ e _ _ _ hok ih.inv he)

theorem call_guar (h : S.ReachableWhen init ok w) {next : I.Ans c → Prog I ε ρ}
    (hi : w.proc i = some ⟨k, .call c next, true⟩) (hc : S.call c w.store x s) :
    P.guar i k w.store s :=
  ((P.holds h).safe i _ hi ⟨rfl, rfl⟩ w.store (P.rely_refl i k _) x s hc).1

/-- What the guarantees and the environment keep holds in every reachable world. -/
theorem store_invariant {J : σ → Prop} (hinit : ∀ s, init s → J s)
    (hguar : ∀ i k s t, P.inv s → J s → P.guar i k s t → J t)
    (henv : ∀ w e t, ok w (.env e) → P.inv w.store → J w.store → S.env e w.store t → J t)
    (h : S.ReachableWhen init ok w) : J w.store := by
  induction h with
  | init h => exact hinit _ h
  | step hw hok hs ih =>
    cases hs with
    | spawn i k hi => exact ih
    | call i hi hc => exact hguar i _ _ _ (P.holds hw).inv ih (P.call_guar hw hi hc)
    | stop i hi => exact ih
    | env e he => exact henv _ e _ hok (P.holds hw).inv ih he

/-- When all processes are compatible, what each of them is known to end with when it is
    started is what it ends with. -/
theorem safe_post (hcompat : ∀ i k j k', P.compat i k j k') {Q : ℕ → κ → Except ε ρ → σ → Prop}
    (hspawn : ∀ w i k, S.ReachableWhen init ok w → P.inv w.store → w.proc i = none →
      (S.body i k).Safe S.call (P.rely i k) (P.guar i k) (Q i k) w.store)
    (h : S.ReachableWhen init ok w) {p : Process I κ ε ρ} (hp : w.proc i = some p) :
    p.prog.Safe S.call (P.rely i p.kind) (P.guar i p.kind) (Q i p.kind) w.store := by
  induction h generalizing i p with
  | init h => exact absurd hp (by simp)
  | @step u v l hw hok hs ih =>
    have hinv := (P.holds hw).inv
    cases hs with
    | spawn j k hj =>
      rcases setProc_cases hp with ⟨rfl, rfl⟩ | ⟨-, hp⟩
      · exact hspawn u i k hw hinv hj
      · exact ih hp
    | @call j k c next x s hj hc =>
      rcases setProc_cases hp with ⟨rfl, rfl⟩ | ⟨hne, hp⟩
      · exact (ih hj _ (P.rely_refl _ _ _) x s hc).2
      · have hrely := P.guar_rely j k i p.kind _ _ (Ne.symm hne) (hcompat _ _ _ _) hinv
          (P.call_guar hw hj hc)
        exact (ih hp).stable (P.rely_trans _ _) hrely
    | stop j hj =>
      rcases setProc_cases hp with ⟨rfl, rfl⟩ | ⟨-, hp⟩
      · have hsafe := ih hj
        exact hsafe
      · exact ih hp
    | env e he => exact (ih hp).stable (P.rely_trans _ _) (P.env_rely _ e _ _ _ hok hinv he)

end RelyGuarantee

/-! ## Runs from a world on -/

/-- In a run that moves the store within `R`, a process that is safe to begin with, or when
    it is started, stays safe. Its own calls, too, are within `R`. -/
theorem StepsWhen.safe {R : σ → σ → Prop} (hrefl : ∀ s, R s s)
    (htrans : ∀ s t u, R s t → R t u → R s u) {Q : κ → Except ε ρ → σ → Prop} {w' : World I σ κ ε ρ}
    (i : ℕ) (hR : ∀ u l v, S.StepsWhen ok w u → ok u l → S.Step u l v → R u.store v.store)
    (hold : ∀ p, w.proc i = some p →
      p.prog.Safe (Prog.Within S.call R) R (fun _ _ => True) (Q p.kind) w.store)
    (hnew : ∀ k u, S.StepsWhen ok w u →
      (S.body i k).Safe (Prog.Within S.call R) R (fun _ _ => True) (Q k) u.store)
    (h : S.StepsWhen ok w w') {p : Process I κ ε ρ} (hp : w'.proc i = some p) :
    p.prog.Safe (Prog.Within S.call R) R (fun _ _ => True) (Q p.kind) w'.store := by
  induction h generalizing p with
  | refl => exact hold p hp
  | @step u v l h hok hs ih =>
    have hmove := hR u l v h hok hs
    cases hs with
    | spawn j k hj =>
      rcases setProc_cases hp with ⟨rfl, rfl⟩ | ⟨-, hp⟩
      · exact hnew k u h
      · exact ih hp
    | call j hj hc =>
      rcases setProc_cases hp with ⟨rfl, rfl⟩ | ⟨-, hp⟩
      · exact (ih hj u.store (hrefl _) _ _ ⟨hc, hmove⟩).2
      · exact (ih hp).stable htrans hmove
    | stop j hj =>
      rcases setProc_cases hp with ⟨rfl, rfl⟩ | ⟨-, hp⟩
      · have hsafe := ih hj
        exact hsafe
      · exact ih hp
    | env e he => exact (ih hp).stable htrans hmove

/-! ## The errors of processes -/

/-- When every step moves the store within what a live process expects before its next call, a
    process has only failed with the errors that its program may fail with. -/
theorem ReachableWhen.failsUnder {R : κ → I.Call → σ → σ → Prop} {E : κ → ε → Prop}
    (hrefl : ∀ w k c, S.ReachableWhen init ok w → R k c w.store w.store)
    (htrans : ∀ k c s t u, R k c s t → R k c t u → R k c s u)
    (hbody : ∀ i k s, (S.body i k).FailsUnder S.call (R k) (E k) s)
    (hmoves : ∀ w l w' i k c next, S.ReachableWhen init ok w → ok w l → S.Step w l w' →
      w.proc i = some ⟨k, .call c next, true⟩ → R k c w.store w'.store)
    (h : S.ReachableWhen init ok w) {i : ℕ} {p : Process I κ ε ρ} (hp : w.proc i = some p) :
    (p.live = true → p.prog.FailsUnder S.call (R p.kind) (E p.kind) w.store) ∧
      ∀ e, p.prog.outcome = some (.error e) → E p.kind e := by
  induction h generalizing i p with
  | init h => exact absurd hp (by simp)
  | @step u v l hw hok hs ih =>
    -- the process does not move itself
    have hstays : ∀ {i p}, u.proc i = some p →
        (p.live = true → p.prog.FailsUnder S.call (R p.kind) (E p.kind) v.store) ∧
          ∀ e, p.prog.outcome = some (.error e) → E p.kind e := by
      rintro i ⟨k, prog, live⟩ hp
      refine ⟨?_, (ih hp).2⟩
      rintro rfl
      refine ((ih hp).1 rfl).stable (htrans k) fun c next hcall => ?_
      subst hcall
      exact hmoves u l v i k c next hw hok hs hp
    cases hs with
    | spawn j k hj =>
      rcases setProc_cases hp with ⟨rfl, rfl⟩ | ⟨-, hp⟩
      · exact ⟨fun _ => hbody i k _, fun e he => (hbody i k u.store).outcome he⟩
      · exact hstays hp
    | call j hj hc =>
      rcases setProc_cases hp with ⟨rfl, rfl⟩ | ⟨-, hp⟩
      · have hnext := (ih hj).1 rfl u.store (hrefl u _ _ hw) _ _ hc
        exact ⟨fun _ => hnext, fun e he => hnext.outcome he⟩
      · exact hstays hp
    | stop j hj =>
      rcases setProc_cases hp with ⟨rfl, rfl⟩ | ⟨-, hp⟩
      · exact ⟨Bool.noConfusion, (ih hj).2⟩
      · exact hstays hp
    | env e he => exact hstays hp

end System

end Wdl
