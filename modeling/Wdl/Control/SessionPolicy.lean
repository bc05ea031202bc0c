import Wdl.Control.Effects
import Wdl.Control.Runs

/-!
# The session policy of a worker

The gateway restarts the sessions of a worker when the sequence number of its session policy
grows. The projection it reads has to agree with the active version and with the stored
sequence number, or else the next activation is refused as corrupt.

* `PolicyCoherent` says that they agree, and that numbers stay in their range.
* `PolicyStep` says what a step does to sequence numbers: they stay, except that an
  activation which restarts sessions adds one.
-/

namespace Wdl.Control

open Function

/-- The stored sequence number of a worker. -/
def sequenceOf (db : Db) (w : WorkerId) : ℕ := (db.sessionPolicySequence w).getD 0

/-- The projections of session policies agree with the active versions and the sequence
    numbers. -/
structure PolicyCoherent (db : Db) : Prop where
  active : ∀ w p, db.sessionPolicy w = some p → db.active w = some p.version
  sequence : ∀ w p, db.sessionPolicy w = some p → p.restartSequence = sequenceOf db w
  valid : ∀ w p, db.sessionPolicy w = some p → p.isValid
  bounded : ∀ w, sequenceOf db w ≤ maxSafeInteger

/-- The version is already active in restart mode. -/
def ActiveInRestart (db : Db) (w : WorkerId) (version : Version) : Prop :=
  ∃ p, db.sessionPolicy w = some p ∧ p.version = version ∧ p.mode = .restart

/-- What a step does to the sequence numbers. -/
inductive PolicyStep (db db' : Db) : Prop
  /-- No version is activated. -/
  | keep (log : ∀ w version, db'.log ≠ .activated w version :: db.log)
      (same : ∀ w, sequenceOf db' w = sequenceOf db w)
  /-- The version is activated, and sessions go on. -/
  | preserve (w : WorkerId) (version : Version) (m : Meta)
      (log : db'.log = .activated w version :: db.log)
      (stored : db'.bundle (w.1, w.2, version) = some m)
      (mode : sessionPolicyModeFromMeta m ≠ .restart ∨ ActiveInRestart db w version)
      (same : ∀ w, sequenceOf db' w = sequenceOf db w)
  /-- The version is activated, and sessions are restarted. -/
  | restart (w : WorkerId) (version : Version) (m : Meta)
      (log : db'.log = .activated w version :: db.log)
      (stored : db'.bundle (w.1, w.2, version) = some m)
      (mode : sessionPolicyModeFromMeta m = .restart) (fresh : ¬ ActiveInRestart db w version)
      (grows : sequenceOf db' w = sequenceOf db w + 1)
      (same : ∀ w', w' ≠ w → sequenceOf db' w' = sequenceOf db w')

variable {db : Db}

theorem PolicyStep.mono {db' : Db} (h : PolicyStep db db') (w : WorkerId) :
    sequenceOf db w ≤ sequenceOf db' w := by
  cases h with
  | keep log same => exact (same w).ge
  | preserve _ _ _ _ _ _ same => exact (same w).ge
  | restart w' version m log stored mode fresh grows same =>
    by_cases hw : w = w'
    · rw [hw, grows]
      exact Nat.le_succ _
    · exact (same w hw).ge

/-! ## The plan of an activation -/

/-- The plan of an activation. -/
structure PolicyPlanned (newVersion : Version) (mode : SessionMode) (raw : Option ℕ)
    (projection : Option SessionPolicyProjection) (plan : SessionPolicyPlan) : Prop where
  planned : plan.mode = mode
  bounded : plan.restartSequence ≤ maxSafeInteger
  positive : mode = .restart → plan.restartSequence ≠ 0
  persist : plan.persistSequence = true ↔
    mode = .restart ∧ ¬ ∃ p, projection = some p ∧ p.version = newVersion ∧ p.mode = .restart
  sequence : plan.restartSequence = raw.getD 0 + if plan.persistSequence then 1 else 0

theorem computeSessionPolicyPlan_ok {currentVersion : Option Version} {newVersion : Version}
    {mode : SessionMode} {raw : Option ℕ} {projection : Option SessionPolicyProjection}
    {plan : SessionPolicyPlan}
    (h : computeSessionPolicyPlan currentVersion newVersion mode raw projection = .ok plan) :
    PolicyPlanned newVersion mode raw projection plan := by
  rw [computeSessionPolicyPlan, parseSessionPolicySequence, parseSessionPolicyProjection] at h
  split at h
  · rename_i hraw
    simp only [bind, Except.bind] at h
    split at h
    · cases h
    rename_i current hcurrent
    split at hcurrent
    · rename_i hvalid
      cases hcurrent
      split at h
      · cases h
      split at h
      · cases h
      rename_i hseq
      split at h
      · -- the same version is already active in restart mode: its number is kept
        rename_i hsame
        cases h
        obtain ⟨p, rfl⟩ : ∃ p, projection = some p := by
          cases projection with
          | none => simp at hsame
          | some p => exact ⟨p, rfl⟩
        obtain ⟨hversion, hmode⟩ : p.version = newVersion ∧ p.mode = .restart := by
          simpa using hsame.2
        simp only [Option.any_some, decide_not, Bool.not_eq_true', decide_eq_false_iff_not,
          Decidable.not_not] at hseq
        simp only [Option.all_some, SessionPolicyProjection.isValid, hmode, Bool.and_eq_true]
          at hvalid
        exact ⟨rfl, hraw, fun _ => by simpa [hseq] using hvalid.2,
          by simpa [hsame.1] using ⟨hversion, hmode⟩, by simp⟩
      · rename_i hfresh
        have hnone : mode = .restart → ¬ ∃ p, projection = some p ∧ p.version = newVersion ∧
            p.mode = .restart := by
          rintro hmode ⟨p, rfl, hp⟩
          exact hfresh ⟨hmode, by simpa using hp⟩
        split at h
        · rename_i hmode
          split at h
          · rename_i hbound
            cases h
            exact ⟨rfl, hbound, fun _ => Nat.succ_ne_zero _, by simpa [hmode] using hnone hmode,
              by simp [hmode]⟩
          · cases h
        · rename_i hmode
          cases h
          exact ⟨rfl, hraw, fun h => absurd h hmode, by simp [hmode], by simp [hmode]⟩
    · cases hcurrent
  · cases h

/-- In a coherent database no activation finds the session policy corrupt. -/
theorem PolicyCoherent.not_corrupt (h : PolicyCoherent db) {w : WorkerId} {e : Failure}
    (he : PolicyCorrupt db w e) : ¬ e.IsPolicyCorruption := by
  obtain ⟨newVersion, mode, he⟩ := he
  have hvalid : (db.sessionPolicy w).all (·.isValid) := by
    cases hp : db.sessionPolicy w with
    | none => rfl
    | some p => exact h.valid w p hp
  have hactive : ¬ (db.sessionPolicy w).any
      (fun c => some c.version ≠ (db.routes w.1).lookup w.2) := by
    cases hp : db.sessionPolicy w with
    | none => simp
    | some p => simp [h.active w p hp]
  have hsequence : ¬ (db.sessionPolicy w).any
      (fun c => c.restartSequence ≠ (db.sessionPolicySequence w).getD 0) := by
    cases hp : db.sessionPolicy w with
    | none => simp
    | some p => simpa [sequenceOf] using h.sequence w p hp
  rw [computeSessionPolicyPlan, parseSessionPolicySequence, parseSessionPolicyProjection] at he
  rw [if_pos (show (db.sessionPolicySequence w).getD 0 ≤ maxSafeInteger from h.bounded w),
    if_pos hvalid] at he
  simp only [bind, Except.bind] at he
  rw [if_neg hactive, if_neg hsequence] at he
  split at he
  · cases he
  · split at he
    · split at he <;> cases he
      decide
    · split at he <;> cases he
      decide

/-! ## What transactions do -/

section Steps

variable {db db' : Db}

theorem PolicyCoherent.of_eq (h : PolicyCoherent db) (hroutes : db'.routes = db.routes)
    (hpolicy : db'.sessionPolicy = db.sessionPolicy)
    (hsequence : db'.sessionPolicySequence = db.sessionPolicySequence) : PolicyCoherent db' where
  active w p hp := by
    rw [Db.active, hroutes]
    exact h.active w p (hpolicy ▸ hp)
  sequence w p hp := by
    rw [sequenceOf, hsequence]
    exact h.sequence w p (hpolicy ▸ hp)
  valid w p hp := h.valid w p (hpolicy ▸ hp)
  bounded w := by
    rw [sequenceOf, hsequence]
    exact h.bounded w

/-- The projection of a worker is removed, maybe with its route. -/
theorem PolicyCoherent.remove (h : PolicyCoherent db) {w : WorkerId}
    (hactive : ∀ w', w' ≠ w → db'.active w' = db.active w')
    (hpolicy : ∀ w', db'.sessionPolicy w' = if w' = w then none else db.sessionPolicy w')
    (hsequence : db'.sessionPolicySequence = db.sessionPolicySequence) : PolicyCoherent db' := by
  have hold : ∀ w' p, db'.sessionPolicy w' = some p → w' ≠ w ∧ db.sessionPolicy w' = some p := by
    intro w' p hp
    rw [hpolicy w'] at hp
    split at hp
    · cases hp
    · exact ⟨by assumption, hp⟩
  refine ⟨fun w' p hp => ?_, fun w' p hp => ?_, fun w' p hp => h.valid w' p (hold w' p hp).2,
    fun w' => ?_⟩
  · rw [hactive w' (hold w' p hp).1]
    exact h.active w' p (hold w' p hp).2
  · rw [sequenceOf, hsequence]
    exact h.sequence w' p (hold w' p hp).2
  · rw [sequenceOf, hsequence]
    exact h.bounded w'

/-- What an activation does to the session policy. -/
structure ActivatedPolicy (db db' : Db) (w : WorkerId) (version : Version)
    (plan : SessionPolicyPlan) : Prop where
  active : ∀ w', db'.active w' = if w' = w then some version else db.active w'
  policy : db'.sessionPolicy =
    update db.sessionPolicy w (some ⟨version, plan.mode, plan.restartSequence⟩)
  sequence : db'.sessionPolicySequence = if plan.persistSequence then
    update db.sessionPolicySequence w (some plan.restartSequence)
    else db.sessionPolicySequence
  log : db'.log = .activated w version :: db.log

variable {w : WorkerId} {version : Version} {plan : SessionPolicyPlan} {mode : SessionMode}

theorem ActivatedPolicy.sequenceOf_self (h : ActivatedPolicy db db' w version plan)
    (hplan : PolicyPlanned version mode (db.sessionPolicySequence w) (db.sessionPolicy w) plan) :
    sequenceOf db' w = plan.restartSequence := by
  rw [sequenceOf, h.sequence]
  split_ifs with hpersist
  · rw [update_self, Option.getD_some]
  · rw [hplan.sequence, if_neg hpersist, Nat.add_zero]

theorem ActivatedPolicy.sequenceOf_ne (h : ActivatedPolicy db db' w version plan) {w' : WorkerId}
    (hw : w' ≠ w) : sequenceOf db' w' = sequenceOf db w' := by
  rw [sequenceOf, h.sequence]
  split
  · rw [update_of_ne hw, sequenceOf]
  · rfl

theorem PolicyCoherent.activate (h : PolicyCoherent db) (ha : ActivatedPolicy db db' w version plan)
    (hv : validVersion version)
    (hplan : PolicyPlanned version mode (db.sessionPolicySequence w) (db.sessionPolicy w) plan) :
    PolicyCoherent db' := by
  have hself := ha.sequenceOf_self hplan
  have hcases : ∀ w' p, db'.sessionPolicy w' = some p →
      (w' = w ∧ p = ⟨version, plan.mode, plan.restartSequence⟩) ∨
        (w' ≠ w ∧ db.sessionPolicy w' = some p) := by
    intro w' p hp
    rw [ha.policy] at hp
    by_cases hw : w' = w
    · subst hw
      rw [update_self, Option.some_inj] at hp
      exact .inl ⟨rfl, hp.symm⟩
    · rw [update_of_ne hw] at hp
      exact .inr ⟨hw, hp⟩
  refine ⟨fun w' p hp => ?_, fun w' p hp => ?_, fun w' p hp => ?_, fun w' => ?_⟩
  · rw [ha.active]
    rcases hcases w' p hp with ⟨rfl, rfl⟩ | ⟨hw, hp⟩
    · rw [if_pos rfl]
    · rw [if_neg hw]
      exact h.active w' p hp
  · rcases hcases w' p hp with ⟨rfl, rfl⟩ | ⟨hw, hp⟩
    · exact hself.symm
    · rw [ha.sequenceOf_ne hw]
      exact h.sequence w' p hp
  · rcases hcases w' p hp with ⟨rfl, rfl⟩ | ⟨hw, hp⟩
    · have hpositive : plan.mode ≠ .restart ∨ plan.restartSequence ≠ 0 := by
        by_cases hmode : plan.mode = .restart
        · exact .inr (hplan.positive (hplan.planned.symm.trans hmode))
        · exact .inl hmode
      simpa [SessionPolicyProjection.isValid, hv, hplan.bounded] using hpositive
    · exact h.valid w' p hp
  · by_cases hw : w' = w
    · rw [hw, hself]
      exact hplan.bounded
    · rw [ha.sequenceOf_ne hw]
      exact h.bounded w'

theorem ActivatedPolicy.step (ha : ActivatedPolicy db db' w version plan) {m : Meta}
    (hstored : db'.bundle (w.1, w.2, version) = some m)
    (hplan : PolicyPlanned version (sessionPolicyModeFromMeta m) (db.sessionPolicySequence w)
      (db.sessionPolicy w) plan) : PolicyStep db db' := by
  have hself : sequenceOf db' w = sequenceOf db w + if plan.persistSequence then 1 else 0 := by
    rw [ha.sequenceOf_self hplan, hplan.sequence, sequenceOf]
  by_cases hpersist : plan.persistSequence = true
  · rw [if_pos hpersist] at hself
    obtain ⟨hmode, hfresh⟩ := hplan.persist.1 hpersist
    exact .restart w version m ha.log hstored hmode hfresh hself fun w' hw => ha.sequenceOf_ne hw
  · rw [if_neg hpersist, Nat.add_zero] at hself
    refine .preserve w version m ha.log hstored ?_ fun w' => ?_
    · by_contra hnot
      rw [not_or, not_not] at hnot
      exact hpersist (hplan.persist.2 hnot)
    · by_cases hw : w' = w
      · rw [hw, hself]
      · exact ha.sequenceOf_ne hw

/-- Nothing of the session policy changes, and nothing is activated. -/
theorem policy_of_eq (h : PolicyCoherent db) (hroutes : db'.routes = db.routes)
    (hpolicy : db'.sessionPolicy = db.sessionPolicy)
    (hsequence : db'.sessionPolicySequence = db.sessionPolicySequence) (hlog : db'.log = db.log) :
    PolicyCoherent db' ∧ PolicyStep db db' := by
  refine ⟨h.of_eq hroutes hpolicy hsequence, .keep (fun w version hne => ?_) fun w => ?_⟩
  · exact List.cons_ne_self _ _ (hne.symm.trans hlog)
  · rw [sequenceOf, hsequence, sequenceOf]

/-- The projection of a worker is removed with it. -/
theorem policy_of_removed (h : PolicyCoherent db)
    (hactive : ∀ w', w' ≠ w → db'.active w' = db.active w')
    (hpolicy : ∀ w', db'.sessionPolicy w' = if w' = w then none else db.sessionPolicy w')
    (hsequence : db'.sessionPolicySequence = db.sessionPolicySequence)
    (hlog : db'.log = .deleted w :: db.log) : PolicyCoherent db' ∧ PolicyStep db db' := by
  refine ⟨h.remove hactive hpolicy hsequence, .keep (fun w' version hne => ?_) fun w' => ?_⟩
  · cases hlog.symm.trans hne
  · rw [sequenceOf, hsequence, sequenceOf]

end Steps

variable {o : Outlook}

theorem Transaction.policy {db' : Db} (ht : Transaction o db db')
    (h : PolicyCoherent db) : PolicyCoherent db' ∧ PolicyStep db db' := by
  cases ht with
  | promote w p d hp =>
    have hplan := computeSessionPolicyPlan_ok hp.policy
    have hactive : ActivatedPolicy db (db.afterPromote w p d) w p.newVersion p.sessionPolicyPlan :=
      ⟨Directory.lookup_put db.routes w p.newVersion, rfl, rfl, rfl⟩
    exact ⟨h.activate hactive hp.valid hplan, hactive.step hp.candidate hplan⟩
  | bump w p key mutation d hb =>
    have hplan := computeSessionPolicyPlan_ok hb.policy
    have hactive : ActivatedPolicy db (db.afterBump w p key mutation d) w p.newVersion
        p.sessionPolicyPlan := ⟨Directory.lookup_put db.routes w p.newVersion, rfl, rfl, rfl⟩
    exact ⟨h.activate hactive hb.valid hplan, hactive.step (update_self ..) hplan⟩
  | deleteWorker w c losing stillActive d hd =>
    refine policy_of_removed h (fun w' hw => ?_) (fun w' => update_apply ..) rfl rfl
    exact (Directory.lookup_drop db.routes w w').trans (if_neg hw)
  | deleteResidue w hasStorage hasPolicy hr =>
    refine policy_of_removed h (fun w' _ => rfl) (fun w' => ?_) rfl rfl
    cases hasPolicy with
    | true => exact update_apply ..
    | false =>
      -- there is no projection to remove
      have hnone : db.sessionPolicy w = none := by
        by_contra hne
        exact absurd (hr.policy.2 hne) (by decide)
      show db.sessionPolicy w' = _
      split_ifs with hw
      · rw [hw, hnone]
      · rfl
  | deploy | secret | deleteVersion | hosts | createDatabase | databaseReady | removeDatabase =>
    exact policy_of_eq h rfl rfl rfl rfl

/-! ## Runs -/

theorem Change.policy {i : ℕ} {db' : Db} (hc : Change o i db db')
    (h : PolicyCoherent db) : PolicyCoherent db' ∧ PolicyStep db db' := by
  cases hc with
  | stay => exact policy_of_eq h rfl rfl rfl rfl
  | command c x db' own hstep =>
    obtain ⟨nextVersion, holder, deleteLock, rfl⟩ := Command.step_eq hstep
    exact policy_of_eq h rfl rfl rfl rfl
  | transaction db' ht => exact ht.policy h

theorem Event.policy (e : Event) (h : PolicyCoherent db) :
    PolicyCoherent (e.apply db) ∧ PolicyStep db (e.apply db) := by
  obtain ⟨deleteLock, nsSecrets, heq⟩ := e.apply_eq db
  rw [heq]
  exact policy_of_eq h rfl rfl rfl rfl

/-- Processes rely on nothing but the coherence of session policies. -/
def policyReliance (i : ℕ) : Reliance i where
  inv := PolicyCoherent
  rel a b := PolicyCoherent a → PolicyCoherent b
  held _ _ := True
  seen _ _ := True
  rel_refl _ := id
  rel_trans _ _ _ hab hbc h := hbc (hab h)
  inv_rel _ _ h hab := hab h
  held_rel _ _ _ _ _ := trivial
  inv_transaction _ _ h ht := (ht.policy h).1
  rel_command c x _ b _ own hstep h :=
    ((Change.command (o := ⟨PolicyCoherent, fun _ _ => True, fun _ _ => True, fun _ _ => True⟩) c x
      b own hstep).policy h).1
  held_incr _ _ _ _ _ _ := trivial
  seen_rel _ _ _ _ _ := trivial
  seen_stored _ _ _ _ _ _ := trivial
  seen_transaction _ _ _ _ _ _ := trivial

def policyDiscipline : Discipline where
  reliance := policyReliance
  inv := PolicyCoherent
  inv_eq _ := rfl
  rel_change _ _ _ _ _ _ hc h := (hc.policy h).1
  rel_event e _ _ _ h := (e.policy h).1

/-- There are no keys of session policies. -/
def NoSessionPolicies (s : Shared keyed) : Prop :=
  ∀ w, s.db.sessionPolicy w = none ∧ s.db.sessionPolicySequence w = none

theorem NoSessionPolicies.coherent {s : Shared keyed} (h : NoSessionPolicies s) :
    PolicyCoherent s.db := by
  have hnone : ∀ w p, s.db.sessionPolicy w ≠ some p := by
    intro w p hp
    cases ((h w).1).symm.trans hp
  refine ⟨fun w p hp => absurd hp (hnone w p), fun w p hp => absurd hp (hnone w p),
    fun w p hp => absurd hp (hnone w p), fun w => ?_⟩
  rw [sequenceOf, (h w).2]
  exact Nat.zero_le _

end Wdl.Control
