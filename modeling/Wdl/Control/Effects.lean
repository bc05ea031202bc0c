import Wdl.Control.Transactions

/-!
# What transactions write, family by family

The writes of a transaction are staged one group after the other. Here each transaction is
one update of the families of keys that it concerns, so that what it leaves alone can be
read off. `Transaction` lists them all, and `Change` everything that a process does to the
database.
-/

namespace Wdl.Control

open Finset Function

variable {db : Db} {w : WorkerId}

/-! ## Commands and events -/

variable {db' : Db}

theorem Command.step_eq {c : Command} {x : Command.interface.Ans c} (h : Command.Step c db x db') :
    ∃ nextVersion holder deleteLock,
      db' = { db with nextVersion, holder, deleteLock } := by
  cases c with
  | incrNextVersion i w => exact ⟨_, _, _, h.2⟩
  | acquireDeleteLock w token =>
    rcases h with ⟨-, -, h⟩ | ⟨-, -, h⟩
    · exact ⟨_, _, _, h⟩
    · exact ⟨_, _, _, h⟩
  | renewDeleteLock w token => exact ⟨_, _, _, h.2⟩
  | releaseDeleteLock w token =>
    rw [Command.Step] at h
    split at h
    · exact ⟨_, _, _, h⟩
    · exact ⟨_, _, _, h⟩

theorem Event.apply_eq (e : Event) (db : Db) : ∃ deleteLock nsSecrets,
    e.apply db = { db with deleteLock, nsSecrets } := by
  cases e with
  | lockExpires | nsSecrets => exact ⟨_, _, rfl⟩

/-! ## Schedules -/

/-- The schedules of a worker are those of this version, if there are any; the others are as
    they were. -/
structure CronMoved (db : Db) (w : WorkerId) (version : Version)
    (cron : WorkerId → Option CronProjection) : Prop where
  others : ∀ w', w' ≠ w → cron w' = db.cron w'
  version : ∀ c, cron w = some c → c.version = version

theorem stageCronProjection_eq (w : WorkerId) (version : Version) (crons : List CronSpec)
    (plan : CronPlan) (db : Db) : ∃ cron cronSequence, CronMoved db w version cron ∧
      stageCronProjection w version crons plan db = { db with cron, cronSequence } := by
  obtain ⟨cronSequence, hseq⟩ : ∃ cronSequence,
      (if plan.persistSequence then stageCronSequence w plan.cronSeq db else db) =
        { db with cronSequence } := by
    split
    · exact ⟨_, rfl⟩
    · exact ⟨_, rfl⟩
  rw [stageCronProjection]
  split
  · refine ⟨_, cronSequence, ?_, by rw [hseq]⟩
    refine ⟨fun w' hw => update_of_ne hw .., fun c hc => ?_⟩
    rw [update_self] at hc
    cases hc
  · refine ⟨_, cronSequence, ?_, by rw [hseq]⟩
    refine ⟨fun w' hw => update_of_ne hw .., fun c hc => ?_⟩
    rw [update_self] at hc
    cases hc
    rfl

variable {db : Db}

theorem stageBumpCron_eq (w : WorkerId) (version : Version) {cronPlan : Option (ℕ × Bool)}
    {raw : Option ℕ} (h : bumpCronSequence (db.cron w) raw = .ok cronPlan) :
    ∃ cron cronSequence, CronMoved db w version cron ∧
      stageBumpCron w version cronPlan db = { db with cron, cronSequence } := by
  cases cronPlan with
  | none =>
    -- there are no schedules to carry over
    have hnone : db.cron w = none := by
      cases hcron : db.cron w with
      | none => rfl
      | some c =>
        rw [hcron, bumpCronSequence] at h
        cases hresolve : resolveCronSequence (some c) raw with
        | ok | error => rw [hresolve] at h; cases h
    refine ⟨db.cron, db.cronSequence, ⟨fun _ _ => rfl, fun c hc => ?_⟩, rfl⟩
    cases hnone.symm.trans hc
  | some x =>
    obtain ⟨seq, persist⟩ := x
    have hversion : ∀ (d : Db) c, (stageCronProjectionMeta w version d).cron w = some c →
        c.version = version := by
      intro d c hc
      simp only [stageCronProjectionMeta, update_self, Option.some_inj] at hc
      rw [← hc]
    cases persist with
    | true =>
      exact ⟨_, _, ⟨fun w' hw => update_of_ne hw .., hversion (stageCronSequence w seq db)⟩, rfl⟩
    | false => exact ⟨_, _, ⟨fun w' hw => update_of_ne hw .., hversion db⟩, rfl⟩

/-! ## Activations -/

theorem stagePromoteWithRoutes_eq (w : WorkerId) (p : PromoteInputs) (db : Db) :
    ∃ d : Db, CronMoved db w p.newVersion d.cron ∧
      stagePromoteWithRoutes w p db = db.afterPromote w p d := by
  obtain ⟨cron, cronSequence, hcron, heq⟩ := stageCronProjection_eq w p.newVersion p.newMeta.crons
    p.cronPlan (stageD1ReferrerAdds (w.1, w.2, p.newVersion) (extractD1Refs p.newMeta.bindings)
      (stageNsHosts w.1 (p.nsHostsAdd w.1) (p.nsHostsRem w.1) (stageNamespace w.1
        (stageSessionPolicy w p.newVersion p.sessionPolicyPlan
          (stageVersionFlip w p.newVersion p.newMeta.routes p.newMeta.workersDev (stageSlotRemovals
            (p.oldRoutes.filter fun r => routeKey r ∉ p.newMeta.routes.map routeKey) db))))))
  refine ⟨{ db with cron, cronSequence }, ⟨hcron.others, hcron.version⟩, ?_⟩
  rw [stagePromoteWithRoutes, heq]
  rfl

/-- The secrets after a mutation. -/
def SecretMutation.apply (mutation : SecretMutation) (key : String) (secrets : Hash String String) :
    Hash String String :=
  match mutation with
  | .put value => secrets.insert key value
  | .delete => secrets.erase key

/-- The worker is visible after a secret is stored. -/
def SecretMutation.index (mutation : SecretMutation) (w : WorkerId) (hide : Bool)
    (index : Ns → Finset Worker) : Ns → Finset Worker :=
  match mutation with
  | .put _ => update index w.1 (insert w.2 (index w.1))
  | .delete => if hide then update index w.1 ((index w.1).erase w.2) else index

/-- The database after a mutation of a secret, with the worker hidden if `hide`. -/
def Db.afterSecret (db : Db) (w : WorkerId) (key : String) (mutation : SecretMutation)
    (hide : Bool) : Db := { db with
  workerSecrets := update db.workerSecrets w (mutation.apply key (db.workerSecrets w))
  workersIndex := mutation.index w hide db.workersIndex }

theorem stageWorkerSecretMutation_eq (w : WorkerId) (key : String) (mutation : SecretMutation)
    (active last : Bool) (db : Db) : stageWorkerSecretMutation w key mutation active last db =
      db.afterSecret w key mutation (¬ active ∧ last) := by
  cases mutation with
  | put value => rfl
  | delete =>
    rw [stageWorkerSecretMutation, Db.afterSecret, SecretMutation.index]
    by_cases h : ¬ active ∧ last
    · rw [if_pos h, if_pos (decide_eq_true h)]
      rfl
    · rw [if_neg h, if_neg (by simpa using h)]
      rfl

/-- The database after the active version was copied, with the schedules of `d`. -/
def Db.afterBump (db : Db) (w : WorkerId) (p : BumpInputs) (key : String)
    (mutation : SecretMutation) (d : Db) : Db := { db with
  workerSecrets := update db.workerSecrets w (mutation.apply key (db.workerSecrets w))
  bundle := update db.bundle (w.1, w.2, p.newVersion) (some p.srcMeta)
  issued := update db.issued (w.1, w.2, p.newVersion)
    (some ((db.issued (w.1, w.2, p.newVersion)).getD p.srcMeta))
  patterns := Directory.putAll db.patterns
    (p.srcMeta.routes.map fun r => (routeKey r, r.projection w p.newVersion))
  routes := update db.routes w.1 ((db.routes w.1).insert w.2 p.newVersion)
  platformDomainDisabled := update db.platformDomainDisabled w.1
    (if p.srcMeta.workersDev then (db.platformDomainDisabled w.1).erase w.2
      else insert w.2 (db.platformDomainDisabled w.1))
  log := .activated w p.newVersion :: db.log
  sessionPolicySequence := if p.sessionPolicyPlan.persistSequence then
      update db.sessionPolicySequence w (some p.sessionPolicyPlan.restartSequence)
    else db.sessionPolicySequence
  sessionPolicy := update db.sessionPolicy w
    (some ⟨p.newVersion, p.sessionPolicyPlan.mode, p.sessionPolicyPlan.restartSequence⟩)
  namespaces := insert w.1 db.namespaces
  workersIndex := update db.workersIndex w.1 (insert w.2 (db.workersIndex w.1))
  workerVersions := update db.workerVersions w (insert p.newVersion (db.workerVersions w))
  referrers := Index.insertAll db.referrers
    (outgoingEntries (w.1, w.2, p.newVersion) (extractOutgoingRefs p.srcMeta.bindings w.1))
  databaseReferrers := Index.insertAll db.databaseReferrers
    (d1Entries (w.1, w.2, p.newVersion) (extractD1Refs p.srcMeta.bindings))
  queueConsumers := Directory.putAll db.queueConsumers
    (p.srcMeta.queueConsumers.map fun c => ((w.1, c.queue), ⟨w.2, p.newVersion, c⟩))
  cron := d.cron
  cronSequence := d.cronSequence }

variable {o : Outlook} {w : WorkerId}

theorem stageBump_eq {p : BumpInputs} (h : Bumped o db w p)
    (key : String) (mutation : SecretMutation) : ∃ d : Db, CronMoved db w p.newVersion d.cron ∧
      stageBump w p (stageWorkerSecretMutation w key mutation true false db) =
        db.afterBump w p key mutation d := by
  let staged := stageWorkerSecretMutation w key mutation true false db
  have hstaged : staged = db.afterSecret w key mutation false :=
    stageWorkerSecretMutation_eq w key mutation true false db
  have hcopy : stageBundleCopy (w.1, w.2, p.currentVersion) (w.1, w.2, p.newVersion) staged =
      stageBundleCommit (w.1, w.2, p.newVersion) p.srcMeta staged := by
    have hsource : staged.bundle (w.1, w.2, p.currentVersion) = some p.srcMeta := by
      rw [hstaged]
      exact h.source
    rw [stageBundleCopy, hsource]
  have hindex : update (mutation.index w false db.workersIndex) w.1
      (insert w.2 (mutation.index w false db.workersIndex w.1)) =
      update db.workersIndex w.1 (insert w.2 (db.workersIndex w.1)) := by
    cases mutation with
    | put value => simp [SecretMutation.index]
    | delete => rfl
  let flipped := stageD1ReferrerAdds (w.1, w.2, p.newVersion) (extractD1Refs p.srcMeta.bindings)
    (stageOutgoingReferrerAdds (w.1, w.2, p.newVersion) (extractOutgoingRefs p.srcMeta.bindings w.1)
      (stageWorkerVersionIndexUpsert w p.newVersion (stageNamespace w.1 (stageSessionPolicy w
        p.newVersion p.sessionPolicyPlan (stageVersionFlip w p.newVersion p.srcMeta.routes
          p.srcMeta.workersDev (stageBundleCommit (w.1, w.2, p.newVersion) p.srcMeta staged))))))
  have hflipped : bumpCronSequence (flipped.cron w) (db.cronSequence w) = .ok p.cronSequence := by
    show bumpCronSequence (staged.cron w) _ = _
    rw [hstaged]
    exact h.cron
  obtain ⟨cron, cronSequence, hcron, heq⟩ := stageBumpCron_eq w p.newVersion hflipped
  refine ⟨{ db with cron, cronSequence },
    ⟨fun w' hw => (hcron.others w' hw).trans ?_, hcron.version⟩, ?_⟩
  · show staged.cron w' = db.cron w'
    rw [hstaged]
    rfl
  · rw [stageBump, hcopy]
    show stageQueueConsumerProjections w p.newVersion p.srcMeta.queueConsumers
      (stageBumpCron w p.newVersion p.cronSequence flipped) = _
    rw [heq]
    simp only [flipped, hstaged, stageQueueConsumerProjections, stageD1ReferrerAdds,
      stageOutgoingReferrerAdds, stageWorkerVersionIndexUpsert, stageWorkerVisible,
      stageNamespace, stageSessionPolicy,
      stageVersionFlip, stageBundleCommit, hindex, Db.afterSecret, Db.afterBump]

/-! ## Deploys -/

/-- The database after a deploy. -/
def Db.afterDeploy (db : Db) (v : VersionId) (prepared : Meta) (refs : List ResolvedD1Ref)
    (storageId : String) (workflowKey : String → String) : Db := { db with
  doStorageId := if hasDurableObjectBinding prepared ∧ db.doStorageId (v.1, v.2.1) = none then
      update db.doStorageId (v.1, v.2.1) (some storageId)
    else db.doStorageId
  bundle := update db.bundle v (some (committedMeta prepared refs storageId workflowKey))
  issued := update db.issued v
    (some ((db.issued v).getD (committedMeta prepared refs storageId workflowKey)))
  workflowDefs := update db.workflowDefs (v.1, v.2.1)
    (prepared.workflows.foldl
      (fun defs wf => defs.insert wf.name (workflowKey wf.name, wf.className))
      (db.workflowDefs (v.1, v.2.1)))
  workersIndex := update db.workersIndex v.1 (insert v.2.1 (db.workersIndex v.1))
  workerVersions := update db.workerVersions (v.1, v.2.1)
    (insert v.2.2 (db.workerVersions (v.1, v.2.1)))
  referrers := Index.insertAll db.referrers
    (outgoingEntries v (extractOutgoingRefs prepared.bindings v.1))
  databaseReferrers := Index.insertAll db.databaseReferrers
    (d1Entries v (refs.map (·.toD1Ref))) }

theorem stageDeployCommit_eq (v : VersionId) (prepared : Meta) (refs : List ResolvedD1Ref)
    (storageId : String) (workflowKey : String → String) (db : Db) :
    stageDeployCommit v prepared refs storageId workflowKey db =
      db.afterDeploy v prepared refs storageId workflowKey := by
  simp only [stageDeployCommit, stageD1ReferrerAdds, stageOutgoingReferrerAdds,
    stageWorkerVersionIndexUpsert, stageWorkerVisible, stageWorkflowDefs, stageBundleCommit]
  rfl

/-! ## Deletion -/

/-- The bundles of some versions of a worker are removed, with their entries in the indexes. -/
structure VersionsGone (db : Db) (w : WorkerId) (gone : Version → Prop) (db' : Db) : Prop where
  bundle_gone : ∀ version, gone version → db'.bundle (w.1, w.2, version) = none
  bundle_kept : ∀ v : VersionId, ¬ ((v.1, v.2.1) = w ∧ gone v.2.2) → db'.bundle v = db.bundle v
  versions : ∀ w' version, version ∈ db'.workerVersions w' ↔
    version ∈ db.workerVersions w' ∧ ¬ (w' = w ∧ gone version)
  referrers_gone : ∀ version, gone version → db'.referrers (w.1, w.2, version) = ∅
  referrers_sub : ∀ v, db'.referrers v ⊆ db.referrers v
  referrers_kept : ∀ v r, r ∈ db.referrers v → ¬ ((v.1, v.2.1) = w ∧ gone v.2.2) →
    ¬ ((r.callerNs, r.callerWorker) = w ∧ gone r.callerVersion) → r ∈ db'.referrers v
  databases_sub : ∀ d, db'.databaseReferrers d ⊆ db.databaseReferrers d
  databases_kept : ∀ d r, r ∈ db.databaseReferrers d →
    ¬ ((r.callerNs, r.callerWorker) = w ∧ gone r.callerVersion) → r ∈ db'.databaseReferrers d

theorem stageVersionDelete_gone (w : WorkerId) (version : Version) (m : Meta) (db : Db) :
    VersionsGone db w (· = version) (stageVersionDelete w version m db) where
  bundle_gone v hv := by
    rw [hv]
    exact update_self ..
  bundle_kept v hv := update_of_ne (fun h => hv (by rw [h]; exact ⟨rfl, rfl⟩)) ..
  versions w' v := by
    show v ∈ update db.workerVersions w ((db.workerVersions w).erase version) w' ↔ _
    by_cases hw : w' = w
    · subst hw
      rw [update_self, mem_erase]
      tauto
    · rw [update_of_ne hw]
      tauto
  referrers_gone v hv := by
    rw [hv, eq_empty_iff_forall_notMem]
    intro r hr
    have hold : r ∈ update db.referrers (w.1, w.2, version) ∅ (w.1, w.2, version) :=
      (Index.mem_eraseAll.1 hr).1
    simp at hold
  referrers_sub v r hr := by
    have hold : r ∈ update db.referrers (w.1, w.2, version) ∅ v :=
      (Index.mem_eraseAll.1 hr).1
    rw [update_apply] at hold
    split at hold
    · simp at hold
    · exact hold
  referrers_kept v r hr hv hcaller := by
    refine Index.mem_eraseAll.2 ⟨?_, fun hmem => ?_⟩
    · show r ∈ update db.referrers (w.1, w.2, version) ∅ v
      rwa [update_of_ne fun h => hv (by rw [h]; exact ⟨rfl, rfl⟩)]
    · obtain ⟨ref, -, href⟩ := List.mem_map.1 hmem
      cases href
      exact hcaller ⟨rfl, rfl⟩
  databases_sub d r hr := (Index.mem_eraseAll.1 hr).1
  databases_kept d r hr hcaller := by
    refine Index.mem_eraseAll.2 ⟨hr, fun hmem => ?_⟩
    obtain ⟨ref, -, href⟩ := List.mem_map.1 hmem
    cases href
    exact hcaller ⟨rfl, rfl⟩

/-- Only four families of keys matter. -/
theorem VersionsGone.frame {db₁ db₂ db₃ : Db} {gone : Version → Prop}
    (h : VersionsGone db₁ w gone db₂) (hbundle : db₃.bundle = db₂.bundle)
    (hversions : db₃.workerVersions = db₂.workerVersions)
    (hreferrers : db₃.referrers = db₂.referrers)
    (hdatabases : db₃.databaseReferrers = db₂.databaseReferrers) :
    VersionsGone db₁ w gone db₃ where
  bundle_gone := by rw [hbundle]; exact h.bundle_gone
  bundle_kept := by rw [hbundle]; exact h.bundle_kept
  versions := by rw [hversions]; exact h.versions
  referrers_gone := by rw [hreferrers]; exact h.referrers_gone
  referrers_sub := by rw [hreferrers]; exact h.referrers_sub
  referrers_kept := by rw [hreferrers]; exact h.referrers_kept
  databases_sub := by rw [hdatabases]; exact h.databases_sub
  databases_kept := by rw [hdatabases]; exact h.databases_kept

theorem VersionsGone.trans {db₁ db₂ db₃ : Db} {gone gone' : Version → Prop}
    (h : VersionsGone db₁ w gone db₂) (h' : VersionsGone db₂ w gone' db₃) :
    VersionsGone db₁ w (fun v => gone v ∨ gone' v) db₃ where
  bundle_gone version hv := by
    by_cases hgone : gone' version
    · exact h'.bundle_gone version hgone
    · rw [h'.bundle_kept _ fun hg => hgone hg.2]
      exact h.bundle_gone version (hv.resolve_right hgone)
  bundle_kept v hv := by
    rw [h'.bundle_kept v fun hg => hv ⟨hg.1, .inr hg.2⟩,
      h.bundle_kept v fun hg => hv ⟨hg.1, .inl hg.2⟩]
  versions w' version := by
    rw [h'.versions, h.versions]
    tauto
  referrers_gone version hv := by
    by_cases hgone : gone' version
    · exact h'.referrers_gone version hgone
    · have hempty := h.referrers_gone version (hv.resolve_right hgone)
      exact subset_empty.1 (hempty ▸ h'.referrers_sub _)
  referrers_sub v := (h'.referrers_sub v).trans (h.referrers_sub v)
  referrers_kept v r hr hv hcaller := by
    refine h'.referrers_kept v r (h.referrers_kept v r hr (fun hg => hv ⟨hg.1, .inl hg.2⟩)
      fun hg => hcaller ⟨hg.1, .inl hg.2⟩) (fun hg => hv ⟨hg.1, .inr hg.2⟩)
      fun hg => hcaller ⟨hg.1, .inr hg.2⟩
  databases_sub d := (h'.databases_sub d).trans (h.databases_sub d)
  databases_kept d r hr hcaller :=
    h'.databases_kept d r (h.databases_kept d r hr fun hg => hcaller ⟨hg.1, .inl hg.2⟩)
      fun hg => hcaller ⟨hg.1, .inr hg.2⟩

theorem stageVersionDeletes_gone (w : WorkerId) (metas : List (Version × Meta)) (db : Db) :
    VersionsGone db w (· ∈ metas.map Prod.fst) (stageVersionDeletes w metas db) := by
  induction metas generalizing db with
  | nil =>
    exact ⟨by simp, fun _ _ => rfl, by simp [stageVersionDeletes], by simp, fun _ => subset_rfl,
      fun _ _ h _ _ => h, fun _ => subset_rfl, fun _ _ h _ => h⟩
  | cons x metas ih =>
    have htrans := (stageVersionDelete_gone w x.1 x.2 db).trans (ih _)
    simpa only [stageVersionDeletes, List.foldl_cons, List.map_cons, List.mem_cons] using htrans

theorem stageWorkerVersionIndexDelete_of_empty (h : db.workerVersions w = ∅) :
    stageWorkerVersionIndexDelete w db = db := by
  rw [stageWorkerVersionIndexDelete, ← h, update_eq_self]

/-- The database after the bundle of a version was removed, with the bundles and indexes of `d`. -/
def Db.afterVersionDelete (db : Db) (w : WorkerId) (last nothingLeft : Bool)
    (d : Db) : Db := { db with
  bundle := d.bundle
  workerVersions := d.workerVersions
  referrers := d.referrers
  databaseReferrers := d.databaseReferrers
  workersIndex := if last ∧ nothingLeft then
      update db.workersIndex w.1 ((db.workersIndex w.1).erase w.2)
    else db.workersIndex }

theorem stageRetainedVersionDelete_eq {version : Version} {m : Meta} {last nothingLeft : Bool}
    (h : VersionDeleted db w version m last nothingLeft) :
    stageRetainedVersionDelete w version m last nothingLeft db =
      db.afterVersionDelete w last nothingLeft (stageVersionDelete w version m db) := by
  rw [stageRetainedVersionDelete]
  cases last with
  | false => rfl
  | true =>
    -- the version that goes is the last one, so that its index is empty already
    have hempty : (stageVersionDelete w version m db).workerVersions w = ∅ := by
      show update db.workerVersions w ((db.workerVersions w).erase version) w = ∅
      rw [update_self, (h.last.1 rfl).1, erase_singleton]
    rw [if_pos rfl, stageWorkerVersionIndexDelete_of_empty hempty]
    cases nothingLeft with
    | false => rfl
    | true => rfl

theorem stageWorkerDelete_eq {c : DeleteInputs} {losing : Finset Host}
    {stillActive : Bool} (h : WorkerDeleted o db w c losing stillActive) :
    ∃ d : Db, VersionsGone db w (· ∈ c.retainedVersions) d ∧
      stageWorkerDelete w c losing stillActive db =
        db.afterWorkerDelete w c losing stillActive d := by
  have hgone : (fun version => version ∈ c.metas.map Prod.fst) = (· ∈ c.retainedVersions) :=
    funext fun version => propext (h.collected.versions version)
  have hroutes : (if c.activeVersion = none then db.routes
      else update db.routes w.1 ((db.routes w.1).erase w.2)) =
      update db.routes w.1 ((db.routes w.1).erase w.2) := by
    split_ifs with hnone
    · rw [Hash.erase_of_lookup_none (h.active.trans hnone), update_eq_self]
    · rfl
  have hsecrets : (if c.hasWorkerSecrets then update db.workerSecrets w ∅
      else db.workerSecrets) = update db.workerSecrets w ∅ := by
    split_ifs with hno
    · rfl
    · have hempty : db.workerSecrets w = ∅ := by
        by_contra hne
        exact hno (h.secrets.2 hne)
      rw [← hempty, update_eq_self]
  rw [stageWorkerDelete, stageSlotRemovals]
  rw [hroutes, hsecrets, stageNsHosts, stageQueueConsumerRemovals]
  rw [union_empty]
  -- the bundles and what is indexed by them go last
  generalize hd : stageVersionDeletes w c.metas _ = d
  have hg : VersionsGone _ w _ d := hd ▸ stageVersionDeletes_gone w c.metas _
  rw [hgone] at hg
  refine ⟨d, ⟨hg.bundle_gone, hg.bundle_kept, hg.versions, hg.referrers_gone, hg.referrers_sub,
    hg.referrers_kept, hg.databases_sub, hg.databases_kept⟩, ?_⟩
  rw [stageVersionDeletes_eq hd]
  rfl

/-! ## Hosts -/

/-- The database after the hosts of a namespace were reconciled, with the indexes of `d`. -/
def Db.afterHosts (db : Db) (ns : Ns) (toAdd : Finset Host)
    (removals : List (Host × Finset Ns)) (d : Db) : Db := { db with
  hosts := update db.hosts ns ((db.hosts ns ∪ toAdd) \ (removals.map Prod.fst).toFinset)
  hostDeclarations := d.hostDeclarations
  declaredHosts := d.declaredHosts }

theorem stageDeclaredHostChanges_eq (ns : Ns) (toAdd : Finset Host)
    (removals : List (Host × Finset Ns)) (db : Db) : ∃ d : Db,
      stageDeclaredHostChanges ns toAdd removals db = db.afterHosts ns toAdd removals d := by
  have hfold : ∀ (removals : List (Host × Finset Ns)) (db : Db), ∃ d : Db,
      removals.foldl (fun db r => stageDeclaredHostRemoval ns r.1 r.2 db) db = { db with
        hostDeclarations := d.hostDeclarations, declaredHosts := d.declaredHosts } := by
    intro removals
    induction removals with
    | nil => exact fun db => ⟨db, rfl⟩
    | cons r removals ih => exact fun db => ih (stageDeclaredHostRemoval ns r.1 r.2 db)
  exact hfold removals _

/-! ## All transactions -/

/-- The transactions, with the families of keys that they write. -/
inductive Transaction (o : Outlook) (db : Db) : Db → Prop
  | deploy (v : VersionId) (prepared : Meta) (refs : List ResolvedD1Ref) (storageId : String)
      (workflowKey : String → String) (h : Deployed o db v prepared refs) :
      Transaction o db (db.afterDeploy v prepared refs storageId workflowKey)
  | promote (w : WorkerId) (p : PromoteInputs) (d : Db) (h : Promoted o db w p)
      (moved : CronMoved db w p.newVersion d.cron) : Transaction o db (db.afterPromote w p d)
  | bump (w : WorkerId) (p : BumpInputs) (key : String) (mutation : SecretMutation) (d : Db)
      (h : Bumped o db w p) (moved : CronMoved db w p.newVersion d.cron) :
      Transaction o db (db.afterBump w p key mutation d)
  | secret (w : WorkerId) (key : String) (mutation : SecretMutation) (last : Bool)
      (h : SecretChanged db w key mutation last) :
      Transaction o db (db.afterSecret w key mutation last)
  | deleteVersion (w : WorkerId) (version : Version) (m : Meta) (last nothingLeft : Bool) (d : Db)
      (h : VersionDeleted db w version m last nothingLeft)
      (gone : VersionsGone db w (· = version) d) :
      Transaction o db (db.afterVersionDelete w last nothingLeft d)
  | deleteWorker (w : WorkerId) (c : DeleteInputs) (losing : Finset Host)
      (stillActive : Bool) (d : Db) (h : WorkerDeleted o db w c losing stillActive)
      (gone : VersionsGone db w (· ∈ c.retainedVersions) d) :
      Transaction o db (db.afterWorkerDelete w c losing stillActive d)
  | deleteResidue (w : WorkerId) (hasStorage hasPolicy : Bool) (h : ResidueDeleted db w hasPolicy) :
      Transaction o db (stageResidualDelete w hasStorage hasPolicy db)
  | hosts (ns : Ns) (toAdd : Finset Host) (removals : List (Host × Finset Ns)) (d : Db)
      (h : HostsReconciled o db ns toAdd removals) :
      Transaction o db (db.afterHosts ns toAdd removals d)
  | createDatabase (ns : Ns) (databaseName databaseId : String) (provisionalUntil : ℕ)
      (h : db.database (ns, databaseId) = none)
      (unnamed : db.databaseName (ns, databaseName) = none) :
      Transaction o db (stageDatabaseCommit ns databaseName databaseId provisionalUntil db)
  | databaseReady (ns : Ns) (database c : DatabaseRecord)
      (h : DatabaseStored db ns database.databaseId c .provisional)
      (named : db.databaseName (ns, database.databaseName) = some database.databaseId) :
      Transaction o db (stageDatabaseReady ns database c db)
  | removeDatabase (ns : Ns) (database c : DatabaseRecord) (change : DatabaseChange)
      (h : change = .rolledBack ∧ DatabaseStored db ns database.databaseId c .provisional ∨
        change = .deleted ∧ DatabaseStored db ns database.databaseId c .ready ∧
          db.databaseReferrers (ns, database.databaseId) = ∅)
      (seen : o.seen ⟨.created, ns, database.databaseName, database.databaseId⟩ db) :
      Transaction o db (stageDatabaseRemoval ns database change
        (db.databaseName (ns, database.databaseName) = some database.databaseId) db)

theorem Deployed.transaction {v : VersionId} {prepared : Meta} {refs : List ResolvedD1Ref}
    (h : Deployed o db v prepared refs) (storageId : String) (workflowKey : String → String) :
    Transaction o db (stageDeployCommit v prepared refs storageId workflowKey db) := by
  rw [stageDeployCommit_eq]
  exact .deploy _ _ _ _ _ h

theorem Promoted.transaction {p : PromoteInputs} (h : Promoted o db w p) :
    Transaction o db (stagePromoteWithRoutes w p db) := by
  obtain ⟨d, hmoved, heq⟩ := stagePromoteWithRoutes_eq w p db
  exact heq ▸ .promote w p d h hmoved

theorem Bumped.transaction {p : BumpInputs} (h : Bumped o db w p) (key : String)
    (mutation : SecretMutation) :
    Transaction o db (stageBump w p (stageWorkerSecretMutation w key mutation true false db)) := by
  obtain ⟨d, hmoved, heq⟩ := stageBump_eq h key mutation
  exact heq ▸ .bump w p key mutation d h hmoved

theorem SecretChanged.transaction {key : String} {mutation : SecretMutation} {last : Bool}
    (h : SecretChanged db w key mutation last) :
    Transaction o db (stageWorkerSecretMutation w key mutation false last db) := by
  have heq := stageWorkerSecretMutation_eq w key mutation false last db
  simp only [Bool.false_eq_true, not_false_eq_true, true_and, Bool.decide_eq_true] at heq
  exact heq ▸ .secret w key mutation last h

theorem VersionDeleted.transaction {version : Version} {m : Meta} {last nothingLeft : Bool}
    (h : VersionDeleted db w version m last nothingLeft) :
    Transaction o db (stageRetainedVersionDelete w version m last nothingLeft db) := by
  rw [stageRetainedVersionDelete_eq h]
  exact .deleteVersion w version m _ _ _ h (stageVersionDelete_gone w version m db)

theorem WorkerDeleted.transaction {c : DeleteInputs} {losing : Finset Host} {stillActive : Bool}
    (h : WorkerDeleted o db w c losing stillActive) :
    Transaction o db (stageWorkerDelete w c losing stillActive db) := by
  obtain ⟨d, hgone, heq⟩ := stageWorkerDelete_eq h
  exact heq ▸ .deleteWorker w c losing stillActive d h hgone

theorem HostsReconciled.transaction {ns : Ns} {toAdd : Finset Host}
    {removals : List (Host × Finset Ns)} (h : HostsReconciled o db ns toAdd removals) :
    Transaction o db (stageDeclaredHostChanges ns toAdd removals db) := by
  obtain ⟨d, heq⟩ := stageDeclaredHostChanges_eq ns toAdd removals db
  exact heq ▸ .hosts ns toAdd removals d h

/-! ## Changes -/

/-- The commands of the process `i`. -/
def Command.Own (i : ℕ) : Command → Prop
  | .incrNextVersion j _ => j = i
  | _ => True

/-- What the process `i` does to the database. -/
inductive Change (o : Outlook) (i : ℕ) (db : Db) : Db → Prop
  | stay : Change o i db db
  | command (c : Command) (x : Command.interface.Ans c) (db' : Db) (own : c.Own i)
      (h : Command.Step c db x db') : Change o i db db'
  | transaction (db' : Db) (h : Transaction o db db') : Change o i db db'

end Wdl.Control
