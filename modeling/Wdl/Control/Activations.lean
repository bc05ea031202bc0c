import Wdl.Control.SessionPolicy

/-!
# Activations among each other

The initial reads of an activation are single reads: it reads the sequence number of the session
policy, then the projection, then the routes, and another activation may commit in between. What
it has read then need not fit together, and it answers that the session policy is corrupt although
it is not; a commit that is refused would have been tried again.

* `PolicyUndisturbed` are the steps that change nothing of a worker's session policy while one of
  its activations is between its initial reads.
* `sessionPolicy_consistent`: the session policies stay consistent, and in runs of such steps no
  activation answers that one is corrupt.
* `promote_finds_corrupt` is a run in which one does.
-/

namespace Wdl.Control

open Function

variable {α β : Type}

/-! ## Errors that say nothing about the session policy -/

/-- The error says something else than that the session policy is corrupt. -/
abbrev Failure.Other (e : Failure) : Prop := ¬ e.IsPolicyCorruption

/-- The computation does not find the session policy corrupt. -/
def Uncorrupt (x : Except Failure α) : Prop := ∀ e, x = .error e → e.Other

theorem Uncorrupt.ok (a : α) : Uncorrupt (.ok a) := nofun

theorem Uncorrupt.error {e : Failure} (he : e.Other) :
    Uncorrupt (.error e : Except Failure α) := by
  rintro _ ⟨⟩
  exact he

theorem Uncorrupt.bind {x : Except Failure α} {f : α → Except Failure β} (hx : Uncorrupt x)
    (hf : ∀ a, Uncorrupt (f a)) : Uncorrupt (x >>= f) := by
  cases x with
  | error e => exact .error (hx e rfl)
  | ok a => exact hf a

section

variable (cron : Option CronProjection) (raw : Option ℕ)

theorem parseCronSequence_uncorrupt : Uncorrupt (parseCronSequence raw) := by
  rw [parseCronSequence]
  split <;> first | exact .ok _ | exact .error (by decide)

theorem assertCronSequence_uncorrupt : Uncorrupt (assertCronSequence raw) := by
  refine .bind (parseCronSequence_uncorrupt raw) fun persisted => ?_
  repeat' split
  all_goals first | exact .ok _ | exact .error (by decide)

theorem resolveCronSequence_uncorrupt : Uncorrupt (resolveCronSequence cron raw) := by
  refine .bind (parseCronSequence_uncorrupt raw) fun persisted => ?_
  repeat' split
  all_goals first | exact .ok _ | exact .error (by decide)

theorem placeCrons_uncorrupt (crons : List CronSpec) (seq : ℕ) :
    Uncorrupt (placeCrons crons seq) := by
  induction crons generalizing seq with
  | nil => exact .ok _
  | cons c crons ih =>
    rw [placeCrons]
    split
    · exact .error (by decide)
    · exact .bind (ih _) fun _ => .ok _

theorem computeCronPlan_uncorrupt (crons : List CronSpec) :
    Uncorrupt (computeCronPlan cron raw crons) := by
  rw [computeCronPlan]
  split
  · exact .bind (assertCronSequence_uncorrupt raw) fun _ => .ok _
  · exact .bind (resolveCronSequence_uncorrupt cron raw) fun seq =>
      .bind (placeCrons_uncorrupt _ seq.1) fun _ => .ok _

theorem bumpCronSequence_uncorrupt : Uncorrupt (bumpCronSequence cron raw) := by
  cases cron with
  | some c => exact .bind (resolveCronSequence_uncorrupt _ raw) fun _ => .ok _
  | none => exact .bind (assertCronSequence_uncorrupt raw) fun _ => .ok _

end

/-- The session does not find the session policy corrupt. -/
abbrev Harmless (p : SessionM α) : Prop := p.FailsWith Failure.Other

section Rules

variable {p : SessionM α} {f : α → SessionM β}

theorem Harmless.bind (hp : Harmless p) (hf : ∀ a, Harmless (f a)) : Harmless (p >>= f) :=
  Prog.FailsWith.bind hp hf

theorem Harmless.fail {e : Failure} (he : e.Other) : Harmless (.fail e : SessionM α) := he

theorem Harmless.watch_bind {ks : List Key} {f : Unit → SessionM β} (h : Harmless (f ())) :
    Harmless (watch ks >>= f) := fun _ => h

theorem Harmless.read_bind {k : Key} {f : k.Val → SessionM β} (h : ∀ v, Harmless (f v)) :
    Harmless (read k >>= f) := h

theorem Harmless.forEach_bind {γ : Type} {l : List γ} {g : γ → SessionM α}
    {f : List α → SessionM β} (hg : ∀ b, Harmless (g b)) (hf : ∀ as, Harmless (f as)) :
    Harmless (Prog.forEach l g >>= f) :=
  Prog.FailsWith.bind (.forEach hg) hf

end Rules

theorem Harmless.refuseIf {c : Prop} [Decidable c] {e : Failure} (he : e.Other) :
    Harmless (refuseIf c e) := by
  rw [Control.refuseIf]
  split
  · exact he
  · trivial

theorem Harmless.ofExcept {x : Except Failure α} (h : Uncorrupt x) : Harmless (ofExcept x) := by
  cases x with
  | ok a => trivial
  | error e => exact h e rfl

theorem Harmless.retrying {p : SessionM (Verdict Db α)} (h : Harmless p) :
    Harmless (retrying p) := by
  induction p with
  | ret v => trivial
  | fail e =>
    cases e with
    | watchError => trivial
    | refused | drift | noop => exact h
  | call c f ih => exact fun x => ih x (h x)

section Parts

variable (w : WorkerId)

/-- A bundle that is not there is an error, unless its route has moved. -/
theorem harmless_retryIfRouteChanged (version : Version) {e : Failure} (he : e.Other) :
    Harmless (retryIfRouteChanged w version >>= fun _ => (.fail e : SessionM α)) :=
  .bind (.read_bind fun _ => .refuseIf (by decide)) fun _ => he

theorem harmless_readMeta (version : Option Version) : Harmless (readMeta w version) := by
  cases version with
  | none => trivial
  | some version =>
    refine .read_bind fun candidate => ?_
    cases candidate with
    | some m => trivial
    | none => exact harmless_retryIfRouteChanged w version (by decide)

theorem harmless_assertBundleDependenciesPresent (ns : Ns) (d1Refs : List D1Ref)
    (outgoingRefs : List OutgoingRef) :
    Harmless (assertBundleDependenciesPresent ns d1Refs outgoingRefs) :=
  .watch_bind <| .forEach_bind
    (fun _ => .read_bind fun _ => .refuseIf (by decide)) fun _ =>
    .forEach_bind (fun _ => .read_bind fun _ => .refuseIf (by decide))
      fun _ => trivial

theorem harmless_assertQueueConsumerOwnership (old new : List QueueConsumer) :
    Harmless (assertQueueConsumerOwnership w old new) :=
  .watch_bind <| .forEach_bind
    (fun _ => .read_bind fun _ => .refuseIf (by decide)) fun _ => trivial

theorem harmless_assertDeclaredHosts (ns : Ns) (routes : List RoutePattern) :
    Harmless (assertDeclaredHosts ns routes) :=
  .read_bind fun _ => .refuseIf (by decide)

theorem harmless_readHostState (routes : List RoutePattern) (hosts : List Host) :
    Harmless (readHostStateAndAssertRouteConflicts w routes hosts) :=
  .forEach_bind (fun _ => .read_bind fun _ => trivial) fun _ =>
    .bind (.refuseIf (by decide)) fun _ => trivial

theorem harmless_assertPlatformAsAvailable (exports : List ExportEntry) :
    Harmless (assertPlatformAsAvailable w exports) := by
  rw [assertPlatformAsAvailable]
  split
  · refine .watch_bind <| .forEach_bind (fun ns => .read_bind fun active =>
      .forEach_bind (fun e => .read_bind fun candidate => ?_) fun _ => trivial)
      fun _ => trivial
    cases candidate with
    | none => exact harmless_retryIfRouteChanged _ _ (by decide)
    | some m => exact .refuseIf (by decide)
  · trivial

theorem harmless_stageWorkerSecretForBump (key : String) (mutation : SecretMutation) :
    Harmless (stageWorkerSecretForBump w key mutation) :=
  .watch_bind <| .read_bind fun _ =>
    .bind (.refuseIf (by decide)) fun _ => trivial

theorem harmless_mutateSecretSession (key : String) (mutation : SecretMutation) :
    Harmless (mutateSecretSession w key mutation) := by
  refine .watch_bind <| .read_bind fun _ =>
    .bind (.refuseIf (by decide)) fun _ => .read_bind fun routes => ?_
  split
  · trivial
  · refine .read_bind fun retained => .read_bind fun secrets => ?_
    split
    · trivial
    · exact .read_bind fun _ => trivial

variable {w} {newVersion : Version} {m : Meta} {rawSequence : Option ℕ}
  {rawProjection : Option SessionPolicyProjection}

theorem harmless_promoteCandidate {currentVersion : Option Version}
    (hplan : Uncorrupt (computeSessionPolicyPlan currentVersion newVersion
      (sessionPolicyModeFromMeta m) rawSequence rawProjection)) :
    Harmless (promoteCandidate w newVersion m currentVersion rawSequence rawProjection) := by
  refine .bind (.refuseIf (by decide)) fun _ =>
    .bind (.refuseIf (by decide)) fun _ =>
    .bind (.refuseIf (by decide)) fun _ =>
    .bind (harmless_assertBundleDependenciesPresent _ _ _) fun _ =>
    .bind (harmless_readMeta _ _) fun _ =>
    .bind (harmless_assertQueueConsumerOwnership _ _ _) fun _ => .watch_bind ?_
  refine .bind (harmless_assertDeclaredHosts _ _) fun _ =>
    .bind (harmless_readHostState _ _ _) fun _ =>
    .bind (harmless_assertPlatformAsAvailable _ _) fun _ =>
    .read_bind fun cron => .read_bind fun raw => ?_
  exact .bind (.ofExcept (computeCronPlan_uncorrupt cron raw m.crons)) fun _ =>
    .bind (.ofExcept hplan) fun _ => trivial

theorem harmless_bumpActive {currentVersion : Version} {before : SessionM (Db → Db)}
    (hplan : Uncorrupt (computeSessionPolicyPlan (some currentVersion) newVersion
      (sessionPolicyModeFromMeta m) rawSequence rawProjection)) (hbefore : Harmless before) :
    Harmless (bumpActive w currentVersion newVersion m rawSequence rawProjection before) := by
  refine .bind (.refuseIf (by decide)) fun _ =>
    .bind (.refuseIf (by decide)) fun _ =>
    .bind (.ofExcept hplan) fun _ =>
    .bind (harmless_assertDeclaredHosts _ _) fun _ =>
    .bind (harmless_assertBundleDependenciesPresent _ _ _) fun _ =>
    .watch_bind <| .watch_bind <| .read_bind fun cron =>
    .read_bind fun raw => ?_
  exact .bind (.ofExcept (bumpCronSequence_uncorrupt cron raw)) fun _ =>
    .watch_bind <| .bind hbefore fun _ => trivial

end Parts

/-! ## Undisturbed runs -/

/-- The worker of which a request activates a version. -/
def Kind.activates : Kind → Option WorkerId
  | .promote w _ => some w
  | .mutateSecret w _ _ => some w
  | _ => none

/-- The initial reads of an activation that come after the one of the sequence number. -/
def Kind.InitialRead : Kind → Key → Prop
  | .promote w version, k =>
    k = .sessionPolicy w ∨ k = .bundle (w.1, w.2, version) ∨ k = .routes w.1
  | .mutateSecret w _ _, k => k = .sessionPolicy w ∨ k = .routes w.1
  | _, _ => False

/-- The route, the projection and the sequence number of the worker are the same. -/
def SamePolicy (w : WorkerId) (a b : Db) : Prop :=
  b.active w = a.active w ∧ b.sessionPolicy w = a.sessionPolicy w ∧
    b.sessionPolicySequence w = a.sessionPolicySequence w

/-- While an activation is between its initial reads, the step leaves the session policy of its
    worker as it is. -/
def PolicyUndisturbed (w : ControlWorld) (l : Label api Kind Event) : Prop :=
  ∀ w', control.Step w l w' → ∀ i k key next worker,
    w.proc i = some ⟨k, .call (.read key) next, true⟩ → k.activates = some worker →
      k.InitialRead key → SamePolicy worker w.store.db w'.store.db

/-- What a request knows of the others when it makes its next call. -/
def policyRely (k : Kind) (c : api.Call) (s t : Shared keyed) : Prop :=
  PolicyCoherent t.db ∧ ∀ key worker, c = .read key → k.activates = some worker →
    k.InitialRead key → SamePolicy worker s.db t.db

theorem SamePolicy.trans {w : WorkerId} {a b c : Db} (h : SamePolicy w a b)
    (h' : SamePolicy w b c) : SamePolicy w a c :=
  ⟨h'.1.trans h.1, h'.2.1.trans h.2.1, h'.2.2.trans h.2.2⟩

/-- What was read of a session policy that has stayed the same fits together. -/
theorem PolicyCoherent.uncorrupt_plan {db : Db} (h : PolicyCoherent db) {w : WorkerId}
    {raw : Option ℕ} {projection : Option SessionPolicyProjection}
    (hraw : db.sessionPolicySequence w = raw) (hprojection : db.sessionPolicy w = projection)
    (newVersion : Version) (mode : SessionMode) :
    Uncorrupt (computeSessionPolicyPlan ((db.routes w.1).lookup w.2) newVersion mode raw
      projection) := by
  subst hraw hprojection
  exact fun e he => h.not_corrupt ⟨newVersion, mode, he⟩

section Sessions

variable (i : ℕ) (w : WorkerId)

/-- The request does not find the session policy corrupt, if no other request changes it between
    its initial reads. -/
abbrev Tolerant (k : Kind) (p : ControlM α) : Prop :=
  ∀ s, p.FailsUnder (Request.Step Command.Step) (policyRely k) Failure.Other s

theorem tolerant_fail {k : Kind} {e : Failure} (he : e.Other) :
    Tolerant k (.fail e : ControlM α) := fun _ => he

theorem tolerant_call_bind {k : Kind} {c : api.Call} {f : api.Ans c → ControlM α}
    (h : ∀ x, Tolerant k (f x)) : Tolerant k (.perform c >>= f) := fun _ _ _ x u _ => h x u

theorem tolerant_optimistic {k : Kind} {exhausted : Failure} (he : exhausted.Other)
    {body : SessionM (Verdict Db α)}
    (hbody : Tolerant k (Session.run Command.interface i (retrying body))) :
    Tolerant k (optimistic i exhausted body) :=
  runOptimistic_failsUnder hbody he _

theorem tolerant_promoteSession (version : Version) :
    Tolerant (.promote w version)
      (Session.run Command.interface i (retrying (promoteSession w version))) := by
  intro s
  -- the connection, the watched keys, the lock, and the sequence number
  rintro _ - _ _ rfl _ - _ _ rfl _ - lock _ ⟨rfl, rfl⟩ _ - sequence t₁ ⟨rfl, rfl⟩
  -- the projection, the bundle and the routes
  rintro _ ⟨-, h₂⟩ projection t₂ ⟨rfl, rfl⟩ _ ⟨-, h₃⟩ candidate t₃ ⟨rfl, rfl⟩
  rintro _ ⟨hcoherent, h₄⟩ routes t₄ ⟨rfl, rfl⟩
  have h₁₂ : SamePolicy w t₁.db t₂.db := h₂ _ w rfl rfl (.inl rfl)
  have h₂₃ : SamePolicy w t₂.db t₃.db := h₃ _ w rfl rfl (.inr (.inl rfl))
  have h₃₄ : SamePolicy w t₃.db t₄.db := h₄ _ w rfl rfl (.inr (.inr rfl))
  have hplan := hcoherent.uncorrupt_plan (h₁₂.trans (h₂₃.trans h₃₄)).2.2 (h₂₃.trans h₃₄).2.1 version
  refine (Session.go_failsWith (Harmless.retrying (.bind (.refuseIf (by decide))
    fun _ => ?_))).under _
  split
  · exact .fail (by decide)
  · exact harmless_promoteCandidate (hplan _)

theorem tolerant_promoteWithRoutes (version : Version) :
    Tolerant (.promote w version) (promoteWithRoutes i w version) := by
  rw [promoteWithRoutes]
  split
  · exact tolerant_optimistic i (by decide) (tolerant_promoteSession i w version)
  · exact tolerant_fail (by decide)

variable (key : String) (mutation : SecretMutation)

theorem tolerant_bumpSession (newVersion : Version) :
    Tolerant (.mutateSecret w key mutation) (Session.run Command.interface i
      (retrying (bumpSession w newVersion fun _ => stageWorkerSecretForBump w key mutation))) := by
  intro s
  -- as in a promotion, except that the bundle is read after the routes
  rintro _ - _ _ rfl _ - _ _ rfl _ - lock _ ⟨rfl, rfl⟩ _ - sequence t₁ ⟨rfl, rfl⟩
  rintro _ ⟨-, h₂⟩ projection t₂ ⟨rfl, rfl⟩ _ ⟨hcoherent, h₃⟩ routes t₃ ⟨rfl, rfl⟩
  have h₁₂ : SamePolicy w t₁.db t₂.db := h₂ _ w rfl rfl (.inl rfl)
  have h₂₃ : SamePolicy w t₂.db t₃.db := h₃ _ w rfl rfl (.inr rfl)
  have hplan := hcoherent.uncorrupt_plan (h₁₂.trans h₂₃).2.2 h₂₃.2.1 newVersion
  refine (Session.go_failsWith (Harmless.retrying (.bind (.refuseIf (by decide))
    fun _ => ?_))).under _
  split
  · exact .fail (by decide)
  · rename_i currentVersion hcurrent
    refine .watch_bind <| .read_bind fun candidate => ?_
    split
    · exact harmless_retryIfRouteChanged w currentVersion (by decide)
    · refine harmless_bumpActive ?_ (harmless_stageWorkerSecretForBump w key mutation)
      rw [← hcurrent]
      exact hplan _

theorem tolerant_bumpActiveAndPromote : Tolerant (.mutateSecret w key mutation)
    (bumpActiveAndPromote i w fun _ => stageWorkerSecretForBump w key mutation) := by
  refine tolerant_call_bind fun routes => ?_
  split
  · exact tolerant_fail (by decide)
  · refine tolerant_call_bind fun newVersion => ?_
    split
    · exact tolerant_optimistic i (by decide) (tolerant_bumpSession i w key mutation newVersion)
    · exact tolerant_fail (by decide)

theorem tolerant_mutateSecretWithoutActive :
    Tolerant (.mutateSecret w key mutation) (mutateSecretWithoutActive i w key mutation) :=
  tolerant_optimistic i (by decide) fun _ _ _ _ u _ =>
    (Session.go_failsWith (harmless_mutateSecretSession w key mutation).retrying).under u

theorem tolerant_mutateSecretLoop (n : ℕ) :
    Tolerant (.mutateSecret w key mutation) (mutateSecretLoop i w key mutation n) := by
  induction n with
  | zero => exact tolerant_fail (by decide)
  | succ n ih =>
    refine fun s => (tolerant_bumpActiveAndPromote i w key mutation s).attempt_bind
      (fun _ _ => trivial) fun e t he => ?_
    split
    · trivial
    · trivial
    · refine (tolerant_mutateSecretWithoutActive i w key mutation t).bind fun found u => ?_
      cases found with
      | activePresent => exact ih u
      | notMutated | mutated => trivial
    · rename_i heq
      cases heq
      exact he

theorem tolerant_mutateSecret :
    Tolerant (.mutateSecret w key mutation) (mutateSecret i w key mutation) := by
  rw [mutateSecret]
  split
  · refine tolerant_call_bind fun lock => ?_
    split
    · exact tolerant_fail (by decide)
    · refine tolerant_call_bind fun secrets => ?_
      split
      · exact fun _ => trivial
      · exact tolerant_mutateSecretLoop i w key mutation _
  · exact tolerant_mutateSecretLoop i w key mutation _

end Sessions

/-- The errors of requests in undisturbed runs. -/
def Kind.Fails (k : Kind) (e : Failure) : Prop :=
  match k.activates with
  | some _ => e.Other
  | none => True

theorem tolerant_body (i : ℕ) (k : Kind) (s : Shared keyed) :
    (body i k).FailsUnder (Request.Step Command.Step) (policyRely k) k.Fails s := by
  cases k with
  | promote w version => exact tolerant_promoteWithRoutes i w version s
  | mutateSecret w key mutation => exact tolerant_mutateSecret i w key mutation s
  | _ => exact (Prog.failsWith_of_forall fun _ => trivial).under s

theorem policyRely.trans (k : Kind) (c : api.Call) (s t u : Shared keyed)
    (h : policyRely k c s t) (h' : policyRely k c t u) : policyRely k c s u :=
  ⟨h'.1, fun key worker hc hk hkey =>
    (h.2 key worker hc hk hkey).trans (h'.2 key worker hc hk hkey)⟩

/-! ## Session policies stay consistent -/

variable {w : ControlWorld}

theorem policyCoherent_of_reachable {ok : ControlWorld → Label api Kind Event → Prop}
    (h : control.ReachableWhen NoSessionPolicies ok w) : PolicyCoherent w.store.db :=
  policyDiscipline.inv_of_reachable (fun _ hs => hs.coherent) (h.mono fun _ _ _ => trivial)

/-- An activation that no other disturbs between its initial reads does not answer that the
    session policy is corrupt. -/
theorem other_of_undisturbed
    (h : control.ReachableWhen NoSessionPolicies PolicyUndisturbed w) {i : ℕ}
    {p : Process api Kind Failure Reply} (hp : w.proc i = some p) {worker : WorkerId}
    (hk : p.kind.activates = some worker) {e : Failure}
    (he : p.prog.outcome = some (.error e)) : e.Other := by
  have hfails := (h.failsUnder (R := policyRely) (E := Kind.Fails)
    (fun w k c hw => ⟨policyCoherent_of_reachable hw, fun _ _ _ _ _ => ⟨rfl, rfl, rfl⟩⟩)
    policyRely.trans tolerant_body (fun w l w' i k c next hw hok hs hi => ?_) hp).2 e he
  · rwa [Kind.Fails, hk] at hfails
  · refine ⟨policyCoherent_of_reachable (.step hw hok hs), ?_⟩
    rintro key worker rfl hk hkey
    exact hok w' hs i k key next worker hi hk hkey

/-- **Session policies stay consistent.** In every reachable world the projection of a worker
    names its active version and the stored sequence number, which no step decreases and
    which grows by one exactly at the activations that restart sessions. The database is never
    one in which an activation finds the session policy corrupt, and when no step changes the
    session policy of a worker between the initial reads of one of its activations, no activation
    fails because it has found it so. -/
theorem sessionPolicy_consistent (h : control.Reachable NoSessionPolicies w) :
    (∀ worker p, w.store.db.sessionPolicy worker = some p →
      w.store.db.active worker = some p.version ∧
        p.restartSequence = sequenceOf w.store.db worker) ∧
    (∀ l w', control.Step w l w' →
      (∀ worker, sequenceOf w.store.db worker ≤ sequenceOf w'.store.db worker) ∧
        PolicyStep w.store.db w'.store.db) ∧
    (∀ worker e, PolicyCorrupt w.store.db worker e → ¬ e.IsPolicyCorruption) ∧
    (control.ReachableWhen NoSessionPolicies PolicyUndisturbed w →
      ∀ i p worker e, w.proc i = some p → p.kind.activates = some worker →
        p.prog.outcome = some (.error e) → ¬ e.IsPolicyCorruption) := by
  have hinv := policyCoherent_of_reachable h
  refine ⟨fun worker p hp => ⟨hinv.active worker p hp, hinv.sequence worker p hp⟩,
    fun l w' hs => ?_, fun worker e he => hinv.not_corrupt he,
    fun hw i p worker e hp hk he => other_of_undisturbed hw hp hk he⟩
  have hstep : PolicyStep w.store.db w'.store.db := by
    rcases policyDiscipline.change_of_step (fun _ hs => hs.coherent) h hs with
      heq | ⟨i, hc⟩ | ⟨e, heq⟩
    · rw [heq]
      exact (policy_of_eq hinv rfl rfl rfl rfl).2
    · exact (hc.policy hinv).2
    · rw [heq]
      exact (e.policy hinv).2
  exact ⟨fun worker => hstep.mono worker, hstep⟩

/-- A request to deploy a worker whose sessions are restarted. -/
def restartingRequest : DeployRequest := { DeployRequest.plain with sessionPolicy := .restart }

/-- The version 1 of a worker is active, and the version 2, which restarts its sessions, is
    stored. -/
def deployedDb : Db := serves 0 [.deploy ("acme", "api") .plain ⟨"do1", id⟩,
  .deploy ("acme", "api") restartingRequest ⟨"do2", id⟩, .promote ("acme", "api") 1] Db.empty

theorem exists_reachable_deployed : ∃ conn proc,
    control.Reachable NoSessionPolicies ⟨⟨deployedDb, conn⟩, proc⟩ ∧
      ∀ j, 3 ≤ j → proc j = none := by
  have hinit : NoSessionPolicies ⟨Db.empty, fun _ => .fresh⟩ := fun _ => ⟨rfl, rfl⟩
  obtain ⟨⟨⟨db, conn⟩, proc⟩, hw, rfl, hfree⟩ := reachable_serves _ (.init hinit) fun _ _ => rfl
  exact ⟨conn, proc, hw, hfree⟩

/-- An activation is not disturbed while there is no other request. -/
theorem undisturbed_of_alone {i : ℕ} (halone : ∀ j, j ≠ i → w.proc j = none) (c : api.Call)
    (x : api.Ans c) : PolicyUndisturbed w (.call i c x) := by
  rintro w' hs j k key next worker hj - -
  -- the activation that is between its reads is the one that makes the call, which is a read
  obtain rfl : j = i := by_contra fun hne => by simp [halone j hne] at hj
  cases hs with
  | call _ hi hc =>
    cases hi.symm.trans hj
    obtain ⟨-, rfl⟩ := hc
    exact ⟨rfl, rfl, rfl⟩

/-- The version 2 is promoted: the sessions of the worker are restarted for the first time. And
    while there is no other request, the promotion of a version that is not stored is refused
    after its initial reads, but not because of the session policy. -/
theorem sessionPolicy_consistent_promoted : ∃ w, control.Reachable NoSessionPolicies w ∧
    w.store.db.sessionPolicy ("acme", "api") = some ⟨2, .restart, 1⟩ ∧
    w.store.db.active ("acme", "api") = some 2 ∧ sequenceOf w.store.db ("acme", "api") = 1 ∧
    (∀ e, PolicyCorrupt w.store.db ("acme", "api") e → ¬ e.IsPolicyCorruption) ∧
    ∃ w p e, control.ReachableWhen NoSessionPolicies PolicyUndisturbed w ∧ w.proc 0 = some p ∧
      p.prog.outcome = some (.error e) ∧ e = .refused 404 "version_not_found" ∧
        ¬ e.IsPolicyCorruption := by
  obtain ⟨conn, proc, h, hfree⟩ := exists_reachable_deployed
  obtain ⟨w, hw, hdb, -⟩ := reachable_serve h (hfree 3 le_rfl) (.promote ("acme", "api") 2)
  have hpolicy : w.store.db.sessionPolicy ("acme", "api") = some ⟨2, .restart, 1⟩ := by
    rw [hdb]
    show (serve 3 _ deployedDb).sessionPolicy _ = _
    decide
  obtain ⟨hprojection, -, hcorrupt, -⟩ := sessionPolicy_consistent hw
  obtain ⟨hactive, hsequence⟩ := hprojection _ _ hpolicy
  refine ⟨w, hw, hpolicy, hactive, hsequence.symm, hcorrupt _, ?_⟩
  -- the version 1 of a worker that was never deployed
  let w₀ : ControlWorld := ⟨⟨Db.empty, fun _ => .fresh⟩, fun _ => none⟩
  obtain ⟨t, -, -, hruns⟩ := Prog.alone_runs Command.answer_step
    (body 0 (.promote ("acme", "api") 1)) none w₀.store nofun
  have hspawn : control.Step w₀ _ _ := .spawn 0 (.promote ("acme", "api") 1) rfl
  have hrefused : control.ReachableWhen NoSessionPolicies PolicyUndisturbed _ :=
    System.ReachableWhen.steps (.init fun _ => ⟨rfl, rfl⟩) <| .runs_when (f := w₀.proc)
      (fun s c x t p hc => ⟨hc, undisturbed_of_alone
        (fun j hj => World.setProc_proc_ne ⟨s, w₀.proc⟩ _ hj) c x⟩) hruns (.step .refl nofun hspawn)
  obtain ⟨-, -, -, hother⟩ := sessionPolicy_consistent (hrefused.mono fun _ _ _ => trivial)
  exact ⟨_, _, _, hrefused, rfl, rfl, rfl, hother hrefused 0 _ _ _ rfl rfl rfl⟩

/-- Two requests promote the version 2, and the one commits between the reads of the projection
    and of the routes by the other, which answers that the session policy is corrupt. -/
theorem promote_finds_corrupt : ∃ w, control.Reachable NoSessionPolicies w ∧
    PolicyCoherent w.store.db ∧
    (∃ p, w.proc 3 = some p ∧ p.kind = .promote ("acme", "api") 2 ∧
      p.prog.outcome = some (.error corruptSessionPolicyProjection)) ∧
    ∃ p, w.proc 4 = some p ∧ p.kind = .promote ("acme", "api") 2 ∧
      p.prog.outcome = some (.ok (.activated 2 .restart 1)) := by
  obtain ⟨conn, proc, h, hfree⟩ := exists_reachable_deployed
  let k : Kind := .promote ("acme", "api") 2
  -- the one request reads the lock, the sequence number and the projection
  obtain ⟨q, t, hdb, hcorrupt, hruns⟩ : ∃ q t, t.db = deployedDb ∧
      (q.alone Command.answer none (serve 4 k deployedDb)).1.outcome =
        some (.error corruptSessionPolicyProjection) ∧
      (body 3 k).Runs control.call ⟨deployedDb, conn⟩ q t := by
    refine ⟨_, _, ?_, ?_, .call (x := ()) rfl (.call (x := ()) rfl (.call ⟨rfl, rfl⟩
      (.call ⟨rfl, rfl⟩ (.call ⟨rfl, rfl⟩ .refl))))⟩
    · rfl
    · rfl
  obtain ⟨w₁, h₁, rfl, hone₁, hothers₁⟩ := exists_steps_start
    (w := ⟨⟨deployedDb, conn⟩, proc⟩) (hfree 3 le_rfl) hruns
  -- the other commits
  obtain ⟨t₂, hdb₂, -, hruns₂⟩ := Prog.alone_runs Command.answer_step (body 4 k) none w₁.store nofun
  obtain ⟨w₂, h₂, rfl, hother₂, hothers₂⟩ := exists_steps_start
    ((hothers₁ 4 (by decide)).trans (hfree 4 (by decide))) hruns₂
  rw [hdb] at hdb₂ hother₂
  -- the one reads the routes
  obtain ⟨t₃, -, -, hruns₃⟩ := Prog.alone_runs Command.answer_step q none w₂.store nofun
  obtain ⟨w₃, h₃, -, hone₃, hothers₃⟩ := exists_steps_resume
    ((hothers₂ 3 (by decide)).trans hone₁) hruns₃
  rw [hdb₂] at hone₃
  have hw₃ := ((h.steps h₁).steps h₂).steps h₃
  exact ⟨w₃, hw₃, policyCoherent_of_reachable hw₃, ⟨_, hone₃, rfl, hcorrupt⟩, _,
    (hothers₃ 4 (by decide)).trans hother₂, rfl, by decide⟩

end Wdl.Control
