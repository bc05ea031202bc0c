import Wdl.Workflow.Chronicle
import Wdl.Workflow.Retention

/-!
# Creating an instance

Creates reserve the instance, check the worker once more, and publish the instance or
remove the reservation. Between any two of these calls other creates, transitions, sweeps
and cleanups of expired reservations may happen, and the create may stop.

Each process is verified on its own, against what the others may do between its calls
(`Tracked.Rely`): they keep the agreement of the keys with the past, never reserve under the
token of the process, and leave true what the process has seen.
-/

namespace Wdl.Workflow

open Api ServiceM

variable {cfg : Service} {n : ℕ} {k : Kind}

/-- The keys of the instance agree with the past. -/
def Agrees (x : Tracked) : Prop := Chronicle x.now.inst x.past

/-- The create with this token has not reserved the instance. -/
def Unreserved (token : ℕ) (x : Tracked) : Prop :=
  ∀ createdAt version, .reserved token createdAt version ∉ x.past

/-- The process has read this state of the visible instance. -/
def SeenState (s : State) (x : Tracked) : Prop :=
  Seen s.generation s.createdAtMs s.frozenVersion x.now.inst x.past

namespace Tracked

/-- What can happen between two calls of the process with number `n`. -/
structure Rely (n : ℕ) (x x' : Tracked) : Prop where
  agrees : Agrees x → Agrees x'
  past : ∀ m ∈ x.past, m ∈ x'.past
  unreserved : Unreserved n x → Unreserved n x'
  seen : ∀ g c v, Seen g c v x.now.inst x.past → Seen g c v x'.now.inst x'.past

/-- A script with its reply takes one store to the other. -/
structure Ran (cfg : Service) (c : Script) (y : c.Reply) (x x' : Tracked) : Prop where
  exec : c.exec cfg x.now.inst y x'.now.inst
  past : x'.past = c.marks x.now.inst x'.now.inst ++ x.past

/-- What a process does in its calls. -/
def Guar (cfg : Service) (n : ℕ) (k : Kind) (x x' : Tracked) : Prop :=
  x' = x ∨ ∃ c y, Calls cfg n k c ∧ Observed n x.now.inst x.past c ∧ Ran cfg c y x x'

variable {x x' x'' : Tracked}

theorem Rely.refl (n : ℕ) (x : Tracked) : Rely n x x :=
  ⟨id, fun _ h => h, id, fun _ _ _ h => h⟩

theorem Rely.trans (h : Rely n x x') (h' : Rely n x' x'') : Rely n x x'' :=
  ⟨fun ha => h'.agrees (h.agrees ha), fun m hm => h'.past m (h.past m hm),
    fun hu => h'.unreserved (h.unreserved hu), fun g c v hs => h'.seen g c v (h.seen g c v hs)⟩

/-- A script other than the reservation of the process itself is within its rely. -/
theorem Ran.rely {c : Script} {y : c.Reply} {m : ℕ} (h : Ran cfg c y x x') (hc : Calls cfg m k c)
    (ho : Observed m x.now.inst x.past c) (hn : ∀ a, c = .createInstance a → m ≠ n) :
    Rely n x x' := by
  have heff := c.exec_effect h.exec
  refine ⟨fun ha => ?_, fun mk hmk => ?_, fun hu created v hmem => ?_, fun g cr v hs => ?_⟩
  · unfold Agrees
    rw [h.past]
    exact ha.effect hc ho heff
  · rw [h.past]
    exact List.mem_append_right _ hmk
  · rw [h.past, List.mem_append] at hmem
    obtain ⟨a, rfl, ha⟩ := Script.of_reserved_mem (hmem.resolve_right (hu created v))
    exact hn a rfl (hc.2.1.symm.trans ha)
  · rw [h.past]
    exact hs.effect hc heff

theorem Guar.agrees (h : Guar cfg n k x x') (ha : Agrees x) : Agrees x' := by
  rcases h with rfl | ⟨c, y, hc, ho, hran⟩
  · exact ha
  · unfold Agrees
    rw [hran.past]
    exact ha.effect hc ho (c.exec_effect hran.exec)

theorem Guar.rely {m : ℕ} (h : Guar cfg n k x x') (hne : n ≠ m) : Rely m x x' := by
  rcases h with rfl | ⟨c, y, hc, ho, hran⟩
  · exact .refl m _
  · exact hran.rely hc ho fun _ _ => hne

theorem env_rely {e : Env} (n : ℕ) (h : (tracked cfg).env e x x') : Rely n x x' := by
  obtain ⟨now, past⟩ := x
  obtain ⟨now', past'⟩ := x'
  obtain ⟨henv, hpast⟩ := h
  obtain rfl : past' = past := hpast
  cases e with
  | tick t =>
    obtain rfl : now' = _ := henv.2
    exact ⟨fun ha => ha, fun _ hm => hm, id, fun _ _ _ hs => hs⟩
  | othersReady b =>
    obtain rfl : now' = _ := henv
    exact ⟨fun ha => ha.same rfl ⟨rfl, rfl, rfl⟩ fun hf => (ha.indexed hf).quiet,
      fun _ hm => hm, id, fun _ _ _ hs => hs⟩

/-- A script is run, or its call is lost; the reply may also be lost. -/
theorem redis_cases {c : Script} {r : Option c.Reply} (h : (tracked cfg).call (.redis c) x r x') :
    (x' = x ∧ r = none) ∨ ∃ y, Ran cfg c y x x' ∧ (r = some y ∨ r = none) := by
  obtain ⟨now, past⟩ := x
  obtain ⟨now', past'⟩ := x'
  obtain ⟨hcall, hpast⟩ := h
  rcases hcall with ⟨y, inst', hexec, hdb, hr⟩ | ⟨hr, hdb⟩
  · have hinst : now'.inst = inst' := by
      rw [show now' = _ from hdb]
      rfl
    exact .inr ⟨y, ⟨hinst ▸ hexec, hpast⟩, hr⟩
  · obtain rfl : now' = now := hdb
    have hnone : c.marks now'.inst now'.inst = [] := c.marks_self _
    refine .inl ⟨congrArg (Recorded.mk now') ?_, hr⟩
    exact hpast.trans (congrArg (· ++ past) hnone)

/-- A call leaves the store and the past as they are, or it runs a script. -/
theorem call_cases {c : Call} {a : api.Ans c} (h : (tracked cfg).call c x a x') :
    x' = x ∨ ∃ script y, c = .redis script ∧ Ran cfg script y x x' := by
  cases c with
  | now | control | dispatchRuntime =>
    obtain ⟨now, past⟩ := x
    obtain ⟨now', past'⟩ := x'
    obtain ⟨hcall, hpast⟩ := h
    obtain rfl : now' = now := hcall
    obtain rfl : past' = past := hpast
    exact .inl rfl
  | redis script =>
    rcases redis_cases h with ⟨rfl, -⟩ | ⟨y, hran, -⟩
    · exact .inl rfl
    · exact .inr ⟨script, y, rfl, hran⟩

end Tracked

/-! ## Rules for the programs -/

open Tracked

/-- From every store in which `A` holds the process keeps its guarantee, and what it returns
    satisfies `Q`. -/
abbrev Keeps (cfg : Service) (n : ℕ) (k : Kind) {α : Type} (A : Tracked → Prop)
    (Q : α → Tracked → Prop) (p : ServiceM α) : Prop :=
  Prog.SafeFrom (tracked cfg).call (Rely n) (Guar cfg n k) (fun r x => ∀ a, r = .ok a → Q a x) A p

/-- What the others do keeps the assertion, and that the keys agree with the past is part of it. -/
structure Steady (n : ℕ) (A : Tracked → Prop) : Prop where
  stable : ∀ x x', A x → Rely n x x' → A x'
  agrees : ∀ x, A x → Agrees x

theorem steady_agrees (n : ℕ) : Steady n Agrees := ⟨fun _ _ h hr => hr.agrees h, fun _ h => h⟩

variable {A : Tracked → Prop}

theorem Steady.and_seen (h : Steady n A) (s : State) : Steady n fun x => A x ∧ SeenState s x :=
  ⟨fun x x' ha hr => ⟨h.stable x x' ha.1 hr, hr.seen _ _ _ ha.2⟩, fun x ha => h.agrees x ha.1⟩

theorem Steady.and_mem (h : Steady n A) (m : Mark) : Steady n fun x => A x ∧ m ∈ x.past :=
  ⟨fun x x' ha hr => ⟨h.stable x x' ha.1 hr, hr.past m ha.2⟩, fun x ha => h.agrees x ha.1⟩

theorem steady_unreserved (n : ℕ) : Steady n fun x => Agrees x ∧ Unreserved n x :=
  ⟨fun _ _ ha hr => ⟨hr.agrees ha.1, hr.unreserved ha.2⟩, fun _ ha => ha.1⟩

variable {α β : Type} {Q : α → Tracked → Prop}

theorem Keeps.ret {a : α} (hA : Steady n A) (h : ∀ x, A x → Q a x) :
    Keeps cfg n k A Q (.ret a) := by
  refine Prog.SafeFrom.ret hA.stable fun x hx b hb => ?_
  cases hb
  exact h x hx

theorem Keeps.fail {e : WorkflowError} : Keeps cfg n k A Q (.fail e) := by
  rintro x _ x' _ a h
  cases h

variable {p : ServiceM α}

theorem Keeps.mono {A' : Tracked → Prop} {Q' : α → Tracked → Prop} (h : Keeps cfg n k A Q p)
    (hA : ∀ x, A' x → A x) (hQ : ∀ a x, Q a x → Q' a x) :
    Keeps cfg n k A' Q' p :=
  fun x hx => (h x (hA x hx)).mono fun _ _ hr a ha => hQ _ _ (hr a ha)

variable {Q' : β → Tracked → Prop}

theorem Keeps.bind {f : α → ServiceM β} (h : Keeps cfg n k A Q p)
    (hf : ∀ a, Keeps cfg n k (Q a) Q' (f a)) :
    Keeps cfg n k A Q' (p.bind f) := by
  refine Prog.SafeFrom.bind (B := Q) (Rely.refl n) (fun x hx => (h x hx).mono fun r x hr => ?_) hf
  cases r with
  | ok a => exact hr a rfl
  | error e =>
    intro a ha
    cases ha

theorem Keeps.map {g : α → β} (h : Keeps cfg n k A Q p)
    (hQ : ∀ a x, Q a x → Q' (g a) x) : Keeps cfg n k A Q' (p.bind fun a => .ret (g a)) := by
  refine fun x hx => .map ((h x hx).mono fun r x hr b hb => ?_)
  cases r with
  | ok a =>
    cases hb
    exact hQ a x (hr a rfl)
  | error e => cases hb

theorem keeps_ofExcept {e : Except WorkflowError α} (hA : Steady n A)
    (h : ∀ a, e = .ok a → ∀ x, A x → Q a x) : Keeps cfg n k A Q (ofExcept e) := by
  cases e with
  | error e => exact .fail
  | ok a => exact .ret hA (h a rfl)

variable {c : Script}

/-- A script takes the assertion before it to one that may depend on the reply. -/
theorem keeps_eval {B : c.Reply → Tracked → Prop} (hA : Steady n A)
    (hc : Calls cfg n k c) (ho : ∀ x, A x → Observed n x.now.inst x.past c)
    (hB : ∀ y, Steady n (B y)) (hran : ∀ x y x', A x → Ran cfg c y x x' → B y x') :
    Keeps cfg n k A B (eval c) := by
  refine .of_call (B := fun r x => ∀ y, r = some y → B y x) hA.stable
    (fun x r x' hx hcall => ?_) fun r => ?_
  · rcases redis_cases hcall with ⟨rfl, rfl⟩ | ⟨y, hrun, hr⟩
    · exact ⟨.inl rfl, nofun⟩
    · refine ⟨.inr ⟨c, y, hc, ho x hx, hrun⟩, fun y' hy' => ?_⟩
      rcases hr with rfl | rfl
      · cases hy'
        exact hran x y x' hx hrun
      · cases hy'
  · cases r with
    | none => exact Keeps.fail
    | some y => exact (Keeps.ret (hB y) fun _ h => h).mono (fun x h => h y rfl) fun _ _ h => h

/-- From every store in which `A` holds the process keeps its guarantee, and `A` holds in the
    end, however the program ends. -/
abbrev Sure (cfg : Service) (n : ℕ) (k : Kind) {α : Type} (A : Tracked → Prop) (p : ServiceM α) :
    Prop :=
  Prog.SafeFrom (tracked cfg).call (Rely n) (Guar cfg n k) (fun _ x => A x) A p

theorem Sure.keeps (h : Sure cfg n k A p) : Keeps cfg n k A (fun _ => A) p :=
  fun x hx => (h x hx).mono fun _ _ hr _ _ => hr

theorem Sure.attempt (h : Sure cfg n k A p) :
    Keeps cfg n k A (fun _ => A) (p.attempt : ServiceM (Except WorkflowError α)) :=
  fun x hx => .attempt ((h x hx).mono fun _ _ hr _ _ => hr)

theorem sure_of_scriptless (hA : Steady n A) (hp : Makes (fun _ => False) p) :
    Sure cfg n k A p := by
  induction p with
  | ret a => exact .ret hA.stable fun _ h => h
  | fail e => exact .fail hA.stable fun _ h => h
  | call c next ih =>
    refine .of_call (B := fun _ => A) hA.stable (fun x r x' hx hcall => ?_) fun r => ?_
    · rcases call_cases hcall with rfl | ⟨script, y, rfl, -⟩
      · exact ⟨.inl rfl, hx⟩
      · exact hp.1.elim
    · cases c with
      | redis script => exact hp.1.elim
      | now | control | dispatchRuntime => exact ih r (hp.2 r trivial)

/-- A script that is not the reservation of the process keeps what the process knows. -/
theorem sure_eval (hA : Steady n A) (hc : Calls cfg n k c)
    (ho : ∀ x, A x → Observed n x.now.inst x.past c) (hn : ∀ a, c ≠ .createInstance a) :
    Sure cfg n k A (eval c) := by
  refine .of_call (B := fun _ => A) hA.stable (fun x r x' hx hcall => ?_) fun r => ?_
  · rcases redis_cases hcall with ⟨rfl, -⟩ | ⟨y, hrun, -⟩
    · exact ⟨.inl rfl, hx⟩
    · exact ⟨.inr ⟨c, y, hc, ho x hx, hrun⟩,
        hA.stable x x' hx (hrun.rely hc (ho x hx) fun a h => absurd h (hn a))⟩
  · cases r with
    | none => exact .fail hA.stable fun _ h => h
    | some y => exact .ret hA.stable fun _ h => h

theorem keeps_now (hA : Steady n A) : Keeps cfg n k A (fun _ => A) now := by
  have hmakes : Makes (fun _ => False) now := ⟨trivial, fun _ _ => trivial⟩
  exact (sure_of_scriptless hA hmakes).keeps

theorem keeps_askControl {q : ControlQuery} (hA : Steady n A) :
    Keeps cfg n k A (fun _ => A) (askControl q) :=
  (sure_of_scriptless hA makes_askControl).keeps

/-! ## Reading the state -/

/-- What is known of a state that was read: a visible one was seen, and a reserved one was
    reserved by the create whose token it holds. -/
structure Found (s : State) (x : Tracked) : Prop where
  visible : s.status ≠ .pendingCreate → SeenState s x
  pending : s.status = .pendingCreate → ∀ t, s.pendingCreateToken = some t →
    .reserved t s.createdAtMs s.frozenVersion ∈ x.past

variable {s : State}

theorem Found.of_read {x : Tracked} (h : Agrees x) (hs : x.now.inst.state = some s) :
    Found s x := by
  refine ⟨fun hst => .of_read h hs hst, fun hst t ht => ?_⟩
  have hlife := (Instance.life_of_state hs).trans (State.life_of_pending hst)
  obtain ⟨t', ht', hmem⟩ := h.pending _ _ _ hlife
  cases ht.symm.trans ht'
  exact hmem

theorem Steady.and_found (h : Steady n A) (r : Option State) :
    Steady n fun x => A x ∧ ∀ s, r = some s → Found s x := by
  refine ⟨fun x x' ha hr => ⟨h.stable x x' ha.1 hr, fun s hs => ?_⟩, fun x ha => h.agrees x ha.1⟩
  have hfound := ha.2 s hs
  exact ⟨fun hst => hr.seen _ _ _ (hfound.visible hst),
    fun hst t ht => hr.past _ (hfound.pending hst t ht)⟩

theorem keeps_readState (hA : Steady n A) :
    Keeps cfg n k A (fun r x => A x ∧ ∀ s, r = some s → Found s x) (eval .readState) := by
  refine keeps_eval hA trivial (fun _ _ => trivial) (fun r => hA.and_found r)
    fun x r x' hx hran => ?_
  have hx' := hA.stable x x' hx (hran.rely (k := k) (m := n) trivial trivial (by simp))
  refine ⟨hx', fun s hs => .of_read (hA.agrees x' hx') ?_⟩
  rcases hran.exec with hexec | ⟨hexp, -⟩
  · obtain ⟨hr, hi⟩ := Prod.mk.inj hexec
    rw [hi, ← hr, hs]
  · exact hexp.elim

theorem keeps_cleanupExpired (hk : k.Requests) (hA : Steady n A)
    (hst : s.status = .pendingCreate) (hfound : ∀ x, A x → Found s x) :
    Keeps cfg n k A (fun _ => A) (cleanupExpiredPendingCreate s) := by
  refine (keeps_now hA).bind fun t => ?_
  split
  · exact .ret hA fun _ h => h
  · cases htoken : s.pendingCreateToken with
    | none => exact .fail
    | some token =>
      have hcalls : Calls cfg n k (.cleanupPendingCreate token s.frozenVersion) := hk
      refine (sure_eval hA hcalls (fun x hx created version hmem => ?_) (by simp)).keeps
      exact (hA.agrees x hx).version_eq ((hfound x hx).pending hst token htoken) hmem

/-- The state of a visible instance is read, and `f` goes on with that of a reserved one. -/
theorem keeps_readVisible {f : State → ServiceM (Option State)} (hA : Steady n A)
    (hf : ∀ s, s.status = .pendingCreate →
      Keeps cfg n k (fun x => A x ∧ ∀ s', some s = some s' → Found s' x)
        (fun r x => A x ∧ ∀ s, r = some s → SeenState s x) (f s)) :
    Keeps cfg n k A (fun r x => A x ∧ ∀ s, r = some s → SeenState s x) (do
      let state : Option State ← eval .readState
      match state with
      | none => .ret none
      | some s => if s.status ≠ .pendingCreate then .ret (some s) else f s) := by
  refine (keeps_readState hA).bind fun r => ?_
  have hsteady := hA.and_found r
  cases r with
  | none => exact .ret hsteady fun x hx => ⟨hx.1, nofun⟩
  | some s =>
    dsimp only
    split_ifs with hst
    · refine .ret hsteady fun x hx => ⟨hx.1, fun s' hs' => ?_⟩
      cases hs'
      exact (hx.2 s rfl).visible hst
    · exact hf s (not_not.1 hst)

theorem keeps_readPublicState (hk : k.Requests) (hA : Steady n A) :
    Keeps cfg n k A (fun r x => A x ∧ ∀ s, r = some s → SeenState s x) readPublicState := by
  refine keeps_readVisible hA fun s hst => ?_
  have hsteady := hA.and_found (some s)
  refine (keeps_cleanupExpired hk hsteady hst fun x hx => hx.2 s rfl).bind fun _ => ?_
  exact .ret hsteady fun x hx => ⟨hx.1, nofun⟩

theorem keeps_waitForPublicCreateState (hk : k.Requests) (hA : Steady n A) (attempts : ℕ) :
    Keeps cfg n k A (fun r x => A x ∧ ∀ s, r = some s → SeenState s x)
      (waitForPublicCreateState attempts) := by
  induction attempts with
  | zero => exact .fail
  | succ attempts ih =>
    refine keeps_readVisible hA fun s hst => ?_
    have hsteady := hA.and_found (some s)
    refine (keeps_cleanupExpired hk hsteady hst fun x hx => hx.2 s rfl).bind fun removed => ?_
    cases removed with
    | true => exact .ret hsteady fun x hx => ⟨hx.1, nofun⟩
    | false => exact ih.mono (fun x hx => hx.1) fun _ _ h => h

/-! ## Creates -/

/-- A create that answers that it created the instance has published it. -/
def Reports (n : ℕ) (o : CreateInstanceOutcome) (x : Tracked) : Prop :=
  o.created = true → .published n ∈ x.past

theorem steady_of_imp (n : ℕ) (p : Prop) (m : Mark) :
    Steady n fun x => Agrees x ∧ (p → m ∈ x.past) :=
  ⟨fun _ _ ha hr => ⟨hr.agrees ha.1, fun hp => hr.past m (ha.2 hp)⟩, fun _ ha => ha.1⟩

theorem Tracked.Ran.agrees {y : c.Reply} {x x' : Tracked} (h : Ran cfg c y x x')
    (hc : Calls cfg n k c) (ho : Observed n x.now.inst x.past c) (ha : Agrees x) : Agrees x' :=
  Guar.agrees (.inr ⟨c, y, hc, ho, h⟩) ha

variable {a : CreateArgs}

/-- A reservation is announced, and is not made otherwise. -/
theorem Tracked.Ran.createInstance {done : Bool} {x x' : Tracked}
    (h : Ran cfg (.createInstance a) done x x') :
    (done = false ∧ x'.past = x.past) ∨
      (done = true ∧ x'.past = .reserved a.pendingToken a.now a.frozenVersion :: x.past) := by
  have hpast := h.past
  have heff := Script.exec_effect _ h.exec
  generalize x'.now.inst = i' at hpast heff
  cases heff with
  | idle hdone =>
    rw [Script.marks_self] at hpast
    exact .inl ⟨eq_false_of_ne_true hdone, hpast⟩
  | created hs =>
    rw [Script.marks, hs] at hpast
    exact .inr ⟨rfl, hpast⟩

/-- A publication that is announced has been made. -/
theorem Tracked.Ran.finalizeCreateInstance {t m : ℕ} {x x' : Tracked}
    (h : Ran cfg (.finalizeCreateInstance t m) true x x') : x'.past = .published t :: x.past := by
  have hpast := h.past
  have heff := Script.exec_effect _ h.exec
  generalize x'.now.inst = i' at hpast heff
  cases heff with
  | idle hdone => exact absurd rfl hdone
  | finalized s hs => rwa [Script.marks_of_published hs rfl (by simp)] at hpast

/-- The reservation of a create that has not reserved yet. -/
theorem keeps_reserve (hk : k.Creates) (htoken : a.pendingToken = n)
    (hparams : a.params.bytes ≤ cfg.paramsLimit) :
    Keeps cfg n k (fun x => Agrees x ∧ Unreserved n x)
      (fun (done : Bool) x =>
        (Agrees x ∧ (done = true → .reserved n a.now a.frozenVersion ∈ x.past)) ∧
        (done = false → Unreserved n x)) (eval (.createInstance a)) := by
  have hc : Calls cfg n k (.createInstance a) := ⟨hk, htoken, hparams⟩
  refine keeps_eval (steady_unreserved n) hc (fun x hx => hx.2) (fun done => ?_)
    fun x done x' hx hran => ⟨⟨hran.agrees hc hx.2 hx.1, ?_⟩, ?_⟩
  · have hsteady := steady_of_imp n (done = true) (.reserved n a.now a.frozenVersion)
    exact ⟨fun x x' hx hr => ⟨hsteady.stable x x' hx.1 hr, fun hd => hr.unreserved (hx.2 hd)⟩,
      fun x hx => hx.1.1⟩
  · rintro rfl
    rcases hran.createInstance with ⟨hfalse, -⟩ | ⟨-, hpast⟩
    · cases hfalse
    · rw [hpast, htoken]
      exact List.mem_cons_self
  · rintro rfl
    rcases hran.createInstance with ⟨-, hpast⟩ | ⟨htrue, -⟩
    · unfold Unreserved
      rw [hpast]
      exact hx.2
    · cases htrue

theorem keeps_reserveInstance (hk : k.Creates) (htoken : a.pendingToken = n)
    (hparams : a.params.bytes ≤ cfg.paramsLimit) :
    Keeps cfg n k (fun x => Agrees x ∧ Unreserved n x)
      (fun r x => Agrees x ∧ (r = none → .reserved n a.now a.frozenVersion ∈ x.past))
      (reserveInstance a) := by
  have hU := steady_unreserved n
  -- both reservations are made in the same way, and the second only if the first was not
  have hreserve {f : Option State → ServiceM (Option State)}
      (hsome : ∀ s, f (some s) = .ret (some s)) (hf : Keeps cfg n k
      (fun x => Agrees x ∧ Unreserved n x)
      (fun r x => Agrees x ∧ (r = none → .reserved n a.now a.frozenVersion ∈ x.past)) (f none)) :
      Keeps cfg n k (fun x => Agrees x ∧ Unreserved n x)
        (fun r x => Agrees x ∧ (r = none → .reserved n a.now a.frozenVersion ∈ x.past)) (do
          let created : Bool ← eval (.createInstance a)
          if created then .ret none
          else (waitForPublicCreateState pendingCreateWaitAttempts).bind f) := by
    refine (keeps_reserve hk htoken hparams).bind fun done => ?_
    split_ifs with hdone
    · refine (Keeps.ret ((steady_agrees n).and_mem _) fun x hx => ⟨hx.1, fun _ => hx.2⟩).mono
        (fun x hx => ⟨hx.1.1, hx.1.2 hdone⟩) fun _ _ h => h
    · refine ((keeps_waitForPublicCreateState hk.requests hU _).mono
        (fun x hx => ⟨hx.1.1, hx.2 (by simpa using hdone)⟩) fun _ _ h => h.1).bind
        fun existing => ?_
      cases existing with
      | some s =>
        rw [hsome]
        exact .ret hU fun x hx => ⟨hx.1, by simp⟩
      | none => exact hf
  exact hreserve (fun _ => rfl) (hreserve (fun _ => rfl) .fail)

theorem keeps_publishCreate (hk : k.Creates) (createdAt version : ℕ) :
    Keeps cfg n k (fun x => Agrees x ∧ .reserved n createdAt version ∈ x.past) (Reports n)
      (publishCreate n version) := by
  have hmem := (steady_agrees n).and_mem (.reserved n createdAt version)
  have hscriptless : Makes (fun _ => False) (recheckCreate version) :=
    .askControl_bind fun _ => .askControl_bind fun _ => makes_askControl
  refine (sure_of_scriptless hmem hscriptless).attempt.bind fun checked => ?_
  cases checked with
  | error e =>
    have hc : Calls cfg n k (.cleanupPendingCreate n version) := hk.requests
    refine (sure_eval hmem hc (fun x hx created v hv => ?_) (by simp)).keeps.bind fun _ => .fail
    exact hx.1.version_eq hx.2 hv
  | ok u =>
    refine (keeps_now hmem).bind fun t => ?_
    have hc : Calls cfg n k (.finalizeCreateInstance n t) := ⟨hk, rfl⟩
    refine .bind (Q := fun (done : Bool) x => Agrees x ∧ (done = true → .published n ∈ x.past))
      (keeps_eval hmem hc (fun _ _ => trivial) (fun done => steady_of_imp n _ _)
        fun x done x' hx hran => ⟨hran.agrees hc trivial hx.1, ?_⟩) fun finalized => ?_
    · rintro rfl
      rw [hran.finalizeCreateInstance]
      exact List.mem_cons_self
    · split_ifs with hdone
      · exact .ret (steady_of_imp n _ _) fun x hx _ => hx.2 hdone
      · exact .fail

theorem keeps_createInstanceAfterDeletePreflight (hk : k.Creates) (version : ℕ)
    (req : CreateRequest) :
    Keeps cfg n k (fun x => Agrees x ∧ Unreserved n x) (Reports n)
      (createInstanceAfterDeletePreflight cfg n version req) := by
  unfold createInstanceAfterDeletePreflight
  split_ifs with hparams
  · exact .fail
  · refine (keeps_now (steady_unreserved n)).bind fun t => ?_
    refine .bind (keeps_reserveInstance hk rfl (not_lt.1 hparams)) fun existing => ?_
    cases existing with
    | some s =>
      exact .ret (steady_of_imp n _ _) fun x _ h => (by cases h)
    | none =>
      exact (keeps_publishCreate hk t version).mono (fun x hx => ⟨hx.1, hx.2 rfl⟩) fun _ _ h => h

theorem keeps_createInstance (hk : k.Creates) (req : CreateRequest) :
    Keeps cfg n k (fun x => Agrees x ∧ Unreserved n x) (Reports n)
      (Api.createInstance cfg n req) := by
  have hU := steady_unreserved n
  exact (keeps_askControl hU).bind fun version => (keeps_askControl hU).bind fun _ =>
    (keeps_askControl hU).bind fun _ => keeps_createInstanceAfterDeletePreflight hk version req

theorem keeps_createBatch (hk : k.Creates) (req : CreateRequest) :
    Keeps cfg n k (fun x => Agrees x ∧ Unreserved n x) (fun r x => ∀ o, r = some o → Reports n o x)
      (Api.createBatch cfg n req) := by
  have hU := steady_unreserved n
  refine (keeps_askControl hU).bind fun version => (keeps_askControl hU).bind fun _ => ?_
  refine ((keeps_readPublicState hk.requests hU).mono (fun _ h => h) fun _ _ h => h.1).bind
    fun existing => ?_
  cases existing with
  | some s => exact .ret hU fun x _ o ho => (nomatch ho)
  | none =>
    refine (keeps_askControl hU).bind fun _ => ?_
    refine (keeps_createInstanceAfterDeletePreflight hk version req).map fun o x h o' ho' => ?_
    cases ho'
    exact h

/-! ## Transitions and sweeps -/

theorem keeps_sendEvent (type : Option EventType) (payload : Payload) :
    Keeps cfg n (.sendEvent type payload) Agrees (fun _ _ => True)
      (Api.sendEvent cfg type payload) := by
  have hk : (Kind.sendEvent type payload).Requests := trivial
  have hA := steady_agrees n
  refine (keeps_ofExcept hA fun _ _ _ h => h).bind fun type' => ?_
  refine (keeps_ofExcept hA fun _ _ _ h => h).bind fun payload' => ?_
  have hread : Keeps cfg n (.sendEvent type payload) Agrees
      (fun r x => Agrees x ∧ ∀ s, r = some s → SeenState s x) readSendEventState := by
    refine keeps_readVisible hA fun s hst => ?_
    have hsteady := hA.and_found (some s)
    refine (keeps_now hsteady).bind fun t => ?_
    split
    · exact (keeps_readPublicState hk hA).mono (fun x hx => hx.1) fun _ _ h => h
    · exact .ret hsteady fun x hx => ⟨hx.1, nofun⟩
  refine hread.bind fun r => ?_
  cases r with
  | none => exact .fail
  | some s =>
    dsimp only
    split
    · exact .fail
    · have hsteady := hA.and_seen s
      have hpre : ∀ x, (Agrees x ∧ ∀ s', some s = some s' → SeenState s' x) →
        Agrees x ∧ SeenState s x :=
        fun x hx => ⟨hx.1, hx.2 s rfl⟩
      refine ((keeps_now hsteady).mono hpre fun _ _ h => h).bind fun t => ?_
      have hc : Calls cfg n (.sendEvent type payload) (.sendEvent payload' type'
          (eventTypeIndexPrefix type') t s.generation s.createdAtMs) := ⟨trivial, rfl⟩
      refine (sure_eval hsteady hc (fun x hx => ⟨_, hx.2⟩) (by simp)).keeps.bind fun reply => ?_
      exact keeps_ofExcept hsteady fun _ _ _ _ => trivial

theorem keeps_staleTransitionResponse (hk : k.Requests) :
    Keeps cfg n k Agrees (fun _ _ => True) staleTransitionResponse := by
  refine ((keeps_readPublicState hk (steady_agrees n)).mono (fun _ h => h) fun _ _ h => h.1).bind
    fun r => ?_
  cases r with
  | none => exact .fail
  | some s => exact .ret (steady_agrees n) fun _ _ => trivial

theorem keeps_transition (hk : k.Requests) {settled : State → Bool} {script : State → ServiceM Bool}
    {next : Status} (h : ∀ s, Steady n (fun x => Agrees x ∧ SeenState s x) →
      Keeps cfg n k (fun x => Agrees x ∧ SeenState s x)
        (fun _ x => Agrees x ∧ SeenState s x) (script s)) :
    Keeps cfg n k Agrees (fun _ _ => True) (transition settled script next) := by
  refine (keeps_readPublicState hk (steady_agrees n)).bind fun r => ?_
  cases r with
  | none => exact .fail
  | some s =>
    have hsteady := (steady_agrees n).and_seen s
    refine Prog.SafeFrom.mono (A := fun x => Agrees x ∧ SeenState s x) ?_ fun x hx =>
      ⟨hx.1, hx.2 s rfl⟩
    dsimp only
    split
    · exact Keeps.ret hsteady fun _ _ => trivial
    · refine (h s hsteady).bind fun updated => ?_
      cases updated with
      | true => exact .ret hsteady fun _ _ => trivial
      | false => exact (keeps_staleTransitionResponse hk).mono (fun _ h => h.1) fun _ _ h => h

theorem keeps_discardPendingRestart (marker version : ℕ) :
    Keeps cfg n k Agrees (fun _ => Agrees) (discardPendingRestart marker version) := by
  have hA := steady_agrees n
  have hc : Calls cfg n k (.removePendingRestart marker version) := trivial
  refine (sure_eval hA hc (fun _ _ => trivial) (by simp)).attempt.bind fun _ => ?_
  exact .ret hA fun _ h => h

theorem keeps_runRestart {version : ℕ} {params : Payload}
    (hparams : params.bytes ≤ cfg.paramsLimit) :
    Keeps cfg n .restart (fun x => Agrees x ∧ SeenState s x) (fun _ _ => True)
      (runRestart n version s params) := by
  have hk : Kind.restart.Requests := trivial
  have hsteady := (steady_agrees n).and_seen s
  refine (keeps_now hsteady).bind fun t => ?_
  have hc : Calls cfg n .restart (.restart n s.generation (s.generation + 1) s.createdAtMs
      s.frozenVersion version t params) := ⟨rfl, rfl, hparams⟩
  refine ((sure_eval hsteady hc (fun x hx => hx.2) (by simp)).attempt.mono (fun _ h => h)
    fun _ _ h => h.1).bind fun reply => ?_
  cases reply with
  | error e => exact (keeps_discardPendingRestart n version).bind fun _ => .fail
  | ok reply =>
    cases reply with
    | leaseExpired => exact .fail
    | stale =>
      exact (keeps_discardPendingRestart n version).bind fun _ => keeps_staleTransitionResponse hk
    | restarted => exact .ret (steady_agrees n) fun _ _ => trivial

theorem keeps_restartInstance :
    Keeps cfg n .restart Agrees (fun _ _ => True) (restartInstance cfg n) := by
  have hk : Kind.restart.Requests := trivial
  refine (keeps_askControl (steady_agrees n)).bind fun version => ?_
  refine (keeps_readPublicState hk (steady_agrees n)).bind fun r => ?_
  cases r with
  | none => exact .fail
  | some s =>
    have hsteady := (steady_agrees n).and_seen s
    refine Prog.SafeFrom.mono (A := fun x => Agrees x ∧ SeenState s x) ?_ fun x hx =>
      ⟨hx.1, hx.2 s rfl⟩
    have hread : Calls cfg n .restart (.readPayload .params) := trivial
    refine (sure_eval hsteady hread (fun _ _ => trivial) (by simp)).keeps.bind fun params => ?_
    cases params with
    | none => exact .fail
    | some params =>
      refine .bind
        (Q := fun params' x => params'.bytes ≤ cfg.paramsLimit ∧ Agrees x ∧ SeenState s x)
        (keeps_ofExcept hsteady fun params' hp x hx => ⟨?_, hx⟩) fun params' => ?_
      · unfold parsePayloadJson at hp
        split at hp
        · cases hp
        · rename_i hle
          rw [← Except.ok.inj hp]
          exact not_lt.1 hle
      · rintro x ⟨hparams, hx⟩
        refine Keeps.bind (keeps_askControl hsteady) (fun _ => ?_) x hx
        have hcreate : Calls cfg n .restart (.createPendingRestart n version) := trivial
        refine (sure_eval hsteady hcreate (fun _ _ => trivial) (by simp)).keeps.bind fun _ => ?_
        have hscriptless : Makes (fun _ => False) (recheckRestart version) :=
          .askControl_bind fun _ => .askControl_bind fun _ => makes_askControl
        refine (sure_of_scriptless hsteady hscriptless).attempt.bind fun checked => ?_
        cases checked with
        | error e =>
          refine ((keeps_discardPendingRestart n version).mono (fun _ h => h.1) fun _ _ h => h).bind
            fun _ => .fail
        | ok u => exact keeps_runRestart hparams

theorem retentionTokenState_terminal {state : Option State} {now : ℕ}
    (h : retentionTokenState state now = .cleanup s) : s.status ≠ .pendingCreate := by
  rw [retentionTokenState_cleanup h] at h
  unfold retentionTokenState at h
  dsimp only at h
  split at h
  · cases h
  · rename_i hst
    rintro hpend
    rw [hpend] at hst
    exact hst rfl

theorem keeps_cleanupRetention :
    Keeps cfg n .retention Agrees (fun _ _ => True) Api.cleanupRetention := by
  have hA := steady_agrees n
  refine (keeps_now hA).bind fun t => ?_
  have hscan : Calls cfg n .retention (.scanRetention t) := trivial
  refine (sure_eval hA hscan (fun _ _ => trivial) (by simp)).keeps.bind fun score => ?_
  cases score with
  | none => exact .ret hA fun _ _ => trivial
  | some score =>
    refine (keeps_readState hA).bind fun state => ?_
    have hsteady := hA.and_found state
    split
    · rename_i hplan
      have hc : Calls cfg n .retention (.removeRetentionToken score (seenState state)) :=
        retentionTokenState_removeToken hplan
      refine (sure_eval hsteady hc (fun _ _ => trivial) (by simp)).keeps.bind fun _ => ?_
      exact .ret hsteady fun _ _ => trivial
    · exact .ret hsteady fun _ _ => trivial
    · rename_i s hplan
      have hc : Calls cfg n .retention
        (.cleanupRetention s.generation s.createdAtMs t s.frozenVersion) := rfl
      refine (sure_eval hsteady hc (fun x hx => ?_) (by simp)).keeps.bind fun _ => ?_
      · exact (hx.2 s (retentionTokenState_cleanup hplan)).visible
          (retentionTokenState_terminal hplan)
      · exact .ret hsteady fun _ _ => trivial

/-! ## All processes together -/

/-- What a process that has ended has reported. -/
def ReportsResult (n : ℕ) (r : Result) (x : Tracked) : Prop :=
  ∀ o, r = .created o → Reports n o x

/-- The processes that neither serve a request nor sweep the retention set call no script that
    needs to have seen anything. -/
theorem Calls.observed {i : Instance} {past : List Mark} (h : Calls cfg n k c)
    (hk : ¬ k.Requests) (hr : k ≠ .retention) : Observed n i past c := by
  cases c with
  | createInstance => exact absurd h.1.requests hk
  | cleanupPendingCreate => exact absurd h hk
  | sendEvent => exact absurd h.1 hk
  | pause | resume | terminate | restart => exact absurd (h.1 ▸ trivial) hk
  | cleanupRetention => exact absurd h hr
  | _ => trivial

theorem tracked_answers (cfg : Service) (c : Call) (x : Tracked) (a : api.Ans c) (x' : Tracked)
    (h : (tracked cfg).call c x a x') : Answers c a := call_answers cfg c x.now a x'.now h.1

/-- A program that only makes calls of its kind, which need not have seen anything. -/
theorem Keeps.of_makes (hk : ¬ k.Requests) (hr : k ≠ .retention) (hp : Makes (Calls cfg n k) p) :
    Keeps cfg n k A (fun _ _ => True) p := by
  refine fun x _ => (Prog.Safe.of_emits (tracked_answers cfg) ?_ hp x).mono fun _ _ _ _ _ => trivial
  intro c x a x' hc hcall
  rcases call_cases hcall with rfl | ⟨script, y, rfl, hran⟩
  · exact .inl rfl
  · exact .inr ⟨script, y, hc, Calls.observed hc hk hr, hran⟩

theorem body_keeps (cfg : Service) (n : ℕ) (k : Kind) :
    Keeps cfg n k (fun x => Agrees x ∧ Unreserved n x) (ReportsResult n) (body cfg n k) := by
  have silent : ∀ {r : Result} {x : Tracked}, (∀ o, r ≠ .created o) → ReportsResult n r x :=
    fun h o ho => absurd ho (h o)
  have requested : ∀ {α : Type} {p : ServiceM α} {g : α → Result},
      Keeps cfg n k Agrees (fun _ _ => True) p → (∀ a o, g a ≠ .created o) →
      Keeps cfg n k (fun x => Agrees x ∧ Unreserved n x) (ReportsResult n)
        (p.bind fun a => .ret (g a)) :=
    fun h hg => (h.mono (fun _ hx => hx.1) fun _ _ h => h).map fun a _ _ => silent (hg a)
  cases k with
  | dispatch =>
    exact requested (.of_makes id (by simp) processReadyWorkflowToken_calls) (by simp)
  | moveDue => exact requested (.of_makes id (by simp) moveDueTokens_calls) (by simp)
  | prune =>
    refine requested (.of_makes id (by simp) ?_) (by simp)
    exact .eval_bind trivial fun _ _ => trivial
  | retention => exact requested keeps_cleanupRetention (by simp)
  | status =>
    refine requested ((keeps_readPublicState (k := .status) trivial (steady_agrees n)).mono
      (fun _ h => h) fun _ _ _ => trivial) ?_
    rintro (_ | s) o <;> simp
  | claimStep req => exact requested (.of_makes id (by simp) (claimStep_calls req)) (by simp)
  | commitStepSuccess req =>
    exact requested (.of_makes id (by simp) (commitStepSuccess_calls req)) (by simp)
  | commitStepError req =>
    exact requested (.of_makes id (by simp) (commitStepError_calls req)) (by simp)
  | registerSleep req =>
    exact requested (.of_makes id (by simp) (registerSleep_calls req)) (by simp)
  | registerWait req =>
    exact requested (.of_makes id (by simp) (registerWait_calls req)) (by simp)
  | create req =>
    refine (keeps_createInstance (k := .create req) trivial req).map fun o x h o' ho' => ?_
    cases ho'
    exact h
  | createBatch req =>
    refine (keeps_createBatch (k := .createBatch req) trivial req).map fun r x h o ho => ?_
    cases r with
    | none => cases ho
    | some o' =>
      cases ho
      exact h _ rfl
  | sendEvent type payload => exact requested (keeps_sendEvent type payload) (by simp)
  | pause =>
    refine requested (keeps_transition (k := .pause) trivial fun s hsteady => ?_) (by simp)
    have hc : Calls cfg n .pause (.pause s.generation (s.generation + 1) s.createdAtMs) :=
      ⟨rfl, rfl⟩
    exact (sure_eval hsteady hc (fun x hx => ⟨_, hx.2⟩) (by simp)).keeps
  | resume =>
    refine requested (keeps_transition (k := .resume) trivial fun s hsteady => ?_) (by simp)
    have hc : Calls cfg n .resume (.resume s.generation (s.generation + 1) s.createdAtMs) :=
      ⟨rfl, rfl⟩
    exact (sure_eval hsteady hc (fun x hx => ⟨_, hx.2⟩) (by simp)).keeps
  | terminate =>
    refine requested (keeps_transition (k := .terminate) trivial fun s hsteady => ?_) (by simp)
    refine (keeps_now hsteady).bind fun t => ?_
    have hc : Calls cfg n .terminate (.terminate s.generation (s.generation + 1) s.createdAtMs
        (t + s.errorRetentionMs) s.frozenVersion) := ⟨rfl, rfl⟩
    exact (sure_eval hsteady hc (fun x hx => hx.2) (by simp)).keeps
  | restart => exact requested keeps_restartInstance (by simp)

theorem reserved_proc {w : TrackedWorld} (h : TrackedReachable cfg w) :
    ∀ t createdAt version, .reserved t createdAt version ∈ w.store.past → w.proc t ≠ none := by
  refine System.ReachableWhen.invariant
    (J := fun w : TrackedWorld => ∀ t createdAt version,
      .reserved t createdAt version ∈ w.store.past → w.proc t ≠ none)
    (fun x hx t created v hmem => ?_) (fun w l w' hw ih _ hs t created v hmem => ?_) h
  · rw [hx.2] at hmem
    exact absurd hmem List.not_mem_nil
  · cases hs with
    | spawn | stop => exact World.setProc_proc_ne_none (ih t created v hmem)
    | env e he =>
      rw [he.2] at hmem
      exact ih t created v hmem
    | @call j k c next x s hj hc =>
      have hcalls := (System.ReachableWhen.emits (tracked_answers cfg) (body_calls cfg) hw hj).1
      rcases call_cases hc with rfl | ⟨script, y, rfl, hran⟩
      · exact World.setProc_proc_ne_none (ih t created v hmem)
      · rw [World.setProc_store, hran.past, List.mem_append] at hmem
        rcases hmem with hmem | hmem
        · obtain ⟨a, rfl, rfl⟩ := Script.of_reserved_mem hmem
          rw [hcalls.2.1, World.setProc_proc_self]
          exact Option.some_ne_none _
        · exact World.setProc_proc_ne_none (ih t created v hmem)

end Wdl.Workflow
