import Wdl.Control.Numbers

/-!
# What exists of a worker

The control plane keeps indexes of what exists: the versions of a worker, the workers of a
namespace, and the namespaces with an active worker. `Indexed` says that they mirror the
bundles, secrets, workflow definitions and routes, and `Transaction.indexed` that every
transaction keeps it so.
-/

namespace Wdl.Control

open Finset Function

/-- The worker has a retained version, a secret or a workflow definition. -/
def Occupied (db : Db) (w : WorkerId) : Prop :=
  db.workerVersions w ≠ ∅ ∨ db.workerSecrets w ≠ ∅ ∨ db.workflowDefs w ≠ ∅

/-- The indexes mirror what exists. -/
structure Indexed (db : Db) : Prop where
  version : ∀ w version, version ∈ db.workerVersions w ↔ db.bundle (w.1, w.2, version) ≠ none
  active : ∀ w version, db.active w = some version → version ∈ db.workerVersions w
  worker : ∀ w : WorkerId, w.2 ∈ db.workersIndex w.1 ↔ Occupied db w
  namespaces : ∀ ns, ns ∈ db.namespaces ↔ db.routes ns ≠ ∅

variable {version : Version}

theorem Indexed.stored {db : Db} (h : Indexed db) {w : WorkerId} (ha : db.active w = some version) :
    ∃ m, db.bundle (w.1, w.2, version) = some m :=
  Option.ne_none_iff_exists'.1 ((h.version w version).1 (h.active w version ha))

section Steps

variable {o : Outlook} {db db' : Db} {w : WorkerId}

/-! ## Versions -/

variable {v : VersionId} {m : Meta}

/-- A version is stored and put in the index. -/
theorem version_iff_of_issue {db' : Db}
    (h : ∀ w version, version ∈ db.workerVersions w ↔ db.bundle (w.1, w.2, version) ≠ none)
    (hbundle : db'.bundle = update db.bundle v (some m))
    (hversions : db'.workerVersions = update db.workerVersions (v.1, v.2.1)
      (insert v.2.2 (db.workerVersions (v.1, v.2.1)))) (w : WorkerId) (version : Version) :
    version ∈ db'.workerVersions w ↔ db'.bundle (w.1, w.2, version) ≠ none := by
  rw [hversions, hbundle, Index.mem_insert_update (a := ((v.1, v.2.1), v.2.2)), h]
  by_cases hv : (w.1, w.2, version) = v
  · subst hv
    simp
  · rw [update_of_ne hv]
    refine or_iff_right fun heq => hv ?_
    cases heq
    rfl

theorem VersionsGone.version_iff {gone : Version → Prop} (hg : VersionsGone db w gone db')
    (h : ∀ w version, version ∈ db.workerVersions w ↔ db.bundle (w.1, w.2, version) ≠ none)
    (w' : WorkerId) (version : Version) :
    version ∈ db'.workerVersions w' ↔ db'.bundle (w'.1, w'.2, version) ≠ none := by
  rw [hg.versions]
  by_cases hgone : w' = w ∧ gone version
  · obtain ⟨rfl, hgone⟩ := hgone
    simp [hg.bundle_gone version hgone, hgone]
  · rw [hg.bundle_kept _ hgone, h]
    exact and_iff_left hgone

/-! ## Workers -/

/-- The index of workers is right about one worker, and nothing changes for the others. -/
theorem worker_iff_of_one (h : Indexed db)
    (hself : w.2 ∈ db'.workersIndex w.1 ↔ Occupied db' w)
    (hindex : ∀ w' : WorkerId, w' ≠ w →
      (w'.2 ∈ db'.workersIndex w'.1 ↔ w'.2 ∈ db.workersIndex w'.1))
    (hversions : ∀ w', w' ≠ w → db'.workerVersions w' = db.workerVersions w')
    (hsecrets : ∀ w', w' ≠ w → db'.workerSecrets w' = db.workerSecrets w')
    (hdefs : ∀ w', w' ≠ w → db'.workflowDefs w' = db.workflowDefs w') (w' : WorkerId) :
    w'.2 ∈ db'.workersIndex w'.1 ↔ Occupied db' w' := by
  by_cases hw : w' = w
  · rwa [hw]
  · rw [hindex w' hw, h.worker, Occupied, Occupied, hversions w' hw, hsecrets w' hw, hdefs w' hw]

theorem mem_visible (index : Ns → Finset Worker) (w w' : WorkerId) :
    w'.2 ∈ update index w.1 (insert w.2 (index w.1)) w'.1 ↔ w' = w ∨ w'.2 ∈ index w'.1 :=
  Index.mem_insert_update

theorem mem_hidden (index : Ns → Finset Worker) (w w' : WorkerId) :
    w'.2 ∈ update index w.1 ((index w.1).erase w.2) w'.1 ↔ w' ≠ w ∧ w'.2 ∈ index w'.1 :=
  Index.mem_erase_update

/-! ## Namespaces -/

theorem namespaces_iff_of_activate (h : Indexed db)
    (hroutes : db'.routes = update db.routes w.1 ((db.routes w.1).insert w.2 version))
    (hnamespaces : db'.namespaces = insert w.1 db.namespaces) (ns : Ns) :
    ns ∈ db'.namespaces ↔ db'.routes ns ≠ ∅ := by
  rw [hnamespaces, mem_insert, hroutes, h.namespaces]
  by_cases hns : ns = w.1
  · rw [hns, update_self]
    refine iff_of_true (.inl rfl) (Hash.ne_empty_iff.2 ⟨w.2, version, Finmap.lookup_insert _⟩)
  · rw [update_of_ne hns]
    exact or_iff_right hns

/-- The active version of a worker after an activation is the new one, and is stored. -/
theorem active_of_activate (h : Indexed db)
    (hroutes : db'.routes = update db.routes w.1 ((db.routes w.1).insert w.2 version))
    (hversions : ∀ w', db.workerVersions w' ⊆ db'.workerVersions w')
    (hnew : version ∈ db'.workerVersions w) (w' : WorkerId) (version' : Version)
    (ha : db'.active w' = some version') : version' ∈ db'.workerVersions w' := by
  rw [Db.active, hroutes, Directory.lookup_put] at ha
  split at ha
  · rename_i hw
    cases ha
    rwa [hw]
  · exact hversions w' (h.active w' version' ha)

/-! ## Transactions -/

/-- Nothing that is indexed changes. -/
theorem Indexed.of_eq (h : Indexed db) (hbundle : db'.bundle = db.bundle)
    (hversions : db'.workerVersions = db.workerVersions) (hroutes : db'.routes = db.routes)
    (hindex : db'.workersIndex = db.workersIndex) (hsecrets : db'.workerSecrets = db.workerSecrets)
    (hdefs : db'.workflowDefs = db.workflowDefs) (hnamespaces : db'.namespaces = db.namespaces) :
    Indexed db' where
  version := by rw [hversions, hbundle]; exact h.version
  active := by rw [hversions]; unfold Db.active; rw [hroutes]; exact h.active
  worker := by unfold Occupied; rw [hindex, hversions, hsecrets, hdefs]; exact h.worker
  namespaces := by rw [hnamespaces, hroutes]; exact h.namespaces

theorem Deployed.indexed {prepared : Meta} {refs : List ResolvedD1Ref}
    (storageId : String) (workflowKey : String → String) (h : Indexed db) :
    Indexed (db.afterDeploy v prepared refs storageId workflowKey) := by
  refine ⟨version_iff_of_issue h.version rfl rfl, fun w version ha => ?_, ?_, h.namespaces⟩
  · exact (Index.mem_insert_update (a := ((v.1, v.2.1), v.2.2))).2 (.inr (h.active w version ha))
  · refine worker_iff_of_one (w := (v.1, v.2.1)) h ?_ (fun w' hw => ?_)
      (fun w' hw => update_of_ne hw ..) (fun w' hw => rfl)
      (fun w' hw => update_of_ne hw ..)
    · refine iff_of_true ((mem_visible ..).2 (.inl rfl)) (.inl (ne_empty_of_mem (a := v.2.2) ?_))
      exact (Index.mem_insert_update (a := ((v.1, v.2.1), v.2.2))).2 (.inl rfl)
    · exact (mem_visible db.workersIndex (v.1, v.2.1) w').trans (or_iff_right hw)

theorem Promoted.indexed {p : PromoteInputs} (hp : Promoted o db w p) (d : Db) (h : Indexed db) :
    Indexed (db.afterPromote w p d) := by
  have hnew : p.newVersion ∈ db.workerVersions w :=
    (h.version w p.newVersion).2 (by rw [hp.candidate]; exact Option.some_ne_none _)
  exact ⟨h.version, active_of_activate h rfl (fun _ => subset_rfl) hnew, h.worker,
    namespaces_iff_of_activate h rfl rfl⟩

theorem Bumped.indexed (p : BumpInputs) (key : String) (mutation : SecretMutation) (d : Db)
    (h : Indexed db) : Indexed (db.afterBump w p key mutation d) := by
  have hmem : ∀ w' version, version ∈ update db.workerVersions w
      (insert p.newVersion (db.workerVersions w)) w' ↔
        (w', version) = (w, p.newVersion) ∨ version ∈ db.workerVersions w' :=
    fun w' version => Index.mem_insert_update (a := (w, p.newVersion))
  refine ⟨version_iff_of_issue (v := (w.1, w.2, p.newVersion)) h.version rfl rfl,
    active_of_activate h rfl (fun w' version hv => (hmem w' version).2 (.inr hv))
      ((hmem w p.newVersion).2 (.inl rfl)), ?_, namespaces_iff_of_activate h rfl rfl⟩
  refine worker_iff_of_one (w := w) h ?_ (fun w' hw => ?_) (fun w' hw => update_of_ne hw ..)
    (fun w' hw => update_of_ne hw ..) (fun w' hw => rfl)
  · exact iff_of_true ((mem_visible ..).2 (.inl rfl))
      (.inl (ne_empty_of_mem ((hmem w p.newVersion).2 (.inl rfl))))
  · exact (mem_visible db.workersIndex w w').trans (or_iff_right hw)

theorem SecretChanged.indexed {key : String} {mutation : SecretMutation} {last : Bool}
    (hs : SecretChanged db w key mutation last) (h : Indexed db) :
    Indexed (db.afterSecret w key mutation last) := by
  unfold Db.afterSecret
  refine ⟨h.version, h.active, ?_, h.namespaces⟩
  refine worker_iff_of_one (w := w) h ?_ (fun w' hw => ?_) (fun w' hw => rfl)
    (fun w' hw => update_of_ne hw ..) (fun w' hw => rfl)
  · -- the worker itself
    simp only [Occupied, update_self]
    cases mutation with
    | put value =>
      refine iff_of_true ((mem_visible ..).2 (.inl rfl)) (.inr (.inl ?_))
      exact Hash.ne_empty_iff.2 ⟨key, value, Finmap.lookup_insert _⟩
    | delete =>
      have hstored := hs.stored rfl
      have hvisible : w.2 ∈ db.workersIndex w.1 := by
        obtain ⟨value, hvalue⟩ := Finmap.mem_iff.1 hstored
        exact (h.worker w).2 (.inr (.inl (Hash.ne_empty_iff.2 ⟨key, value, hvalue⟩)))
      -- what is left is nothing exactly if this was the last of it
      have hleft : (db.workerVersions w ≠ ∅ ∨ (db.workerSecrets w).erase key ≠ ∅ ∨
          db.workflowDefs w ≠ ∅) ↔ ¬ last = true := by
        rw [hs.last rfl, ← Hash.erase_eq_empty_iff hstored]
        tauto
      rw [SecretMutation.apply, hleft]
      cases last with
      | true => exact iff_of_false (fun hmem => ((mem_hidden ..).1 hmem).1 rfl) (by decide)
      | false => exact iff_of_true hvisible (by decide)
  · cases mutation with
    | put value => exact (mem_visible db.workersIndex w w').trans (or_iff_right hw)
    | delete =>
      rw [SecretMutation.index]
      split
      · exact (mem_hidden db.workersIndex w w').trans (and_iff_right hw)
      · rfl

variable {d : Db}

theorem VersionDeleted.indexed {last nothingLeft : Bool}
    (hd : VersionDeleted db w version m last nothingLeft)
    (hgone : VersionsGone db w (· = version) d) (h : Indexed db) :
    Indexed (db.afterVersionDelete w last nothingLeft d) := by
  unfold Db.afterVersionDelete
  have hversions := hgone.versions
  refine ⟨hgone.version_iff h.version, fun w' version' ha => ?_, ?_, h.namespaces⟩
  · refine (hversions w' version').2 ⟨h.active w' version' ha, ?_⟩
    rintro ⟨rfl, rfl⟩
    exact hd.inactive ha
  · refine worker_iff_of_one (w := w) h ?_ (fun w' hw => ?_) (fun w' hw => ?_) (fun w' hw => rfl)
      (fun w' hw => rfl)
    · have hvisible : w.2 ∈ db.workersIndex w.1 :=
        (h.worker w).2 (.inl (ne_empty_of_mem hd.retained))
      have hempty : d.workerVersions w = ∅ ↔ db.workerVersions w = {version} := by
        rw [eq_empty_iff_forall_notMem, eq_singleton_iff_unique_mem,
          and_iff_right hd.retained]
        refine forall_congr' fun version' => ?_
        rw [hversions]
        tauto
      -- the active version is another one, so that it is not active if it is the last one
      have hinactive : db.workerVersions w = {version} → db.active w = none := by
        intro honly
        cases ha : db.active w with
        | none => rfl
        | some active =>
          have hmem := h.active w active ha
          rw [honly, mem_singleton] at hmem
          exact absurd (hmem ▸ ha) hd.inactive
      have hleft : (d.workerVersions w ≠ ∅ ∨ db.workerSecrets w ≠ ∅ ∨ db.workflowDefs w ≠ ∅) ↔
          ¬ (last = true ∧ nothingLeft = true) := by
        rw [hd.last, hd.nothing, ne_eq, hempty]
        tauto
      simp only [Occupied]
      rw [hleft]
      split_ifs with hhide
      · exact iff_of_false (fun hmem => ((mem_hidden ..).1 hmem).1 rfl) (not_not.2 hhide)
      · exact iff_of_true hvisible hhide
    · show w'.2 ∈ (if last ∧ nothingLeft then _ else db.workersIndex) w'.1 ↔ _
      split
      · exact (mem_hidden db.workersIndex w w').trans (and_iff_right hw)
      · rfl
    · ext version'
      rw [hversions]
      exact and_iff_left fun heq => hw heq.1

theorem WorkerDeleted.indexed {c : DeleteInputs} {losing : Finset Host} {stillActive : Bool}
    (hd : WorkerDeleted o db w c losing stillActive)
    (hgone : VersionsGone db w (· ∈ c.retainedVersions) d) (h : Indexed db) :
    Indexed (db.afterWorkerDelete w c losing stillActive d) := by
  unfold Db.afterWorkerDelete
  have hversions := hgone.versions
  refine ⟨hgone.version_iff h.version, fun w' version ha => ?_, ?_, fun ns => ?_⟩
  · have hactive := ha.symm.trans (Directory.lookup_drop db.routes w w')
    split at hactive
    · cases hactive
    · rename_i hw
      exact (hversions w' version).2 ⟨h.active w' version hactive.symm, fun heq => hw heq.1⟩
  · refine worker_iff_of_one (w := w) h ?_ (fun w' hw => ?_) (fun w' hw => ?_)
      (fun w' hw => update_of_ne hw ..) (fun w' hw => update_of_ne hw ..)
    · refine iff_of_false (fun hmem => ((mem_hidden ..).1 hmem).1 rfl) ?_
      have hempty : d.workerVersions w = ∅ := by
        rw [eq_empty_iff_forall_notMem]
        intro version hv
        obtain ⟨hv, hne⟩ := (hversions w version).1 hv
        exact hne ⟨rfl, hd.versions ▸ hv⟩
      simp [Occupied, hempty]
    · exact (mem_hidden db.workersIndex w w').trans (and_iff_right hw)
    · ext version
      rw [hversions]
      exact and_iff_left fun heq => hw heq.1
  · show ns ∈ (if stillActive then db.namespaces else db.namespaces.erase w.1) ↔
      update db.routes w.1 ((db.routes w.1).erase w.2) ns ≠ ∅
    by_cases hns : ns = w.1
    · rw [hns, update_self, Hash.ne_empty_iff]
      have hleft : (∃ k v, ((db.routes w.1).erase w.2).lookup k = some v) ↔ stillActive = true := by
        rw [hd.stillActive, Hash.any_iff]
        refine exists_congr fun k => exists_congr fun v => ?_
        by_cases hk : k = w.2
        · rw [hk, Finmap.lookup_erase]
          simp
        · rw [Finmap.lookup_erase_ne hk]
          simp [hk]
      rw [hleft]
      cases stillActive with
      | true =>
        refine iff_of_true ((h.namespaces w.1).2 (Hash.ne_empty_iff.2 ?_)) rfl
        obtain ⟨k, v, hk, -⟩ := Hash.any_iff.1 (hd.stillActive.1 rfl)
        exact ⟨k, v, hk⟩
      | false => exact iff_of_false (fun hmem => (mem_erase.1 hmem).1 rfl) (by decide)
    · rw [update_of_ne hns, ← h.namespaces]
      split
      · rfl
      · exact mem_erase.trans (and_iff_right hns)

theorem Transaction.indexed (ht : Transaction o db db') (h : Indexed db) : Indexed db' := by
  cases ht with
  | deploy v prepared refs storageId workflowKey => exact Deployed.indexed storageId workflowKey h
  | promote w p d hp => exact hp.indexed d h
  | bump w p key mutation d => exact Bumped.indexed p key mutation d h
  | secret w key mutation last hs => exact hs.indexed h
  | deleteVersion w version m last nothingLeft d hd hgone => exact hd.indexed hgone h
  | deleteWorker w c losing stillActive d hd hgone => exact hd.indexed hgone h
  | deleteResidue | hosts | createDatabase | databaseReady | removeDatabase =>
    exact h.of_eq rfl rfl rfl rfl rfl rfl rfl

end Steps

end Wdl.Control
