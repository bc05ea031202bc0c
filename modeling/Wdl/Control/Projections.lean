import Wdl.Control.References

/-!
# What is projected from active bundles

The gateway and the scheduler do not read bundles: the route patterns of the active versions
are written to the slots of their hosts, and their queues to the consumers of the queues. Both
are tables of entries that belong to workers, and hold exactly the entries of the active
bundles (`Projected`).

An activation replaces the entries of one worker, and deleting a worker removes them: so all
transactions are covered by `Projects.replace`, once it is known which bundle was active.
-/

namespace Wdl.Control

open List Function

/-- The active version of a worker, with its metadata. -/
def Db.activeBundle (db : Db) (w : WorkerId) : Option (Version × Meta) :=
  (db.active w).bind fun version => (db.bundle (w.1, w.2, version)).map (version, ·)

/-- The slots of a version. -/
def slotEntries (w : WorkerId) (x : Version × Meta) : List ((Host × Slot) × PatternProjection) :=
  x.2.routes.map fun r => (routeKey r, r.projection w x.1)

/-- The queues of a version. -/
def queueEntries (w : WorkerId) (x : Version × Meta) : List ((Ns × String) × QueueProjection) :=
  x.2.queueConsumers.map fun c => ((w.1, c.queue), ⟨w.2, x.1, c⟩)

/-- The slots of the active version of a worker. -/
def slotsOf (db : Db) (w : WorkerId) : List ((Host × Slot) × PatternProjection) :=
  ((db.activeBundle w).map (slotEntries w)).getD []

/-- The queues of the active version of a worker. -/
def queuesOf (db : Db) (w : WorkerId) : List ((Ns × String) × QueueProjection) :=
  ((db.activeBundle w).map (queueEntries w)).getD []

/-- What is at a slot of a host. -/
def Db.slotAt (db : Db) (k : Host × Slot) : Option PatternProjection := (db.patterns k.1).lookup k.2

/-- The consumer of a queue. -/
def Db.consumerOf (db : Db) (k : Ns × String) : Option QueueProjection :=
  (db.queueConsumers k.1).lookup k.2

/-- The tables are what is projected from active bundles. -/
structure Projected (db : Db) : Prop where
  slots : Projects (fun _ p => (p.ns, p.worker)) (slotsOf db) db.slotAt
  queues : Projects (fun k p => (k.1, p.worker)) (queuesOf db) db.consumerOf

theorem Projected.slot_iff {db : Db} (h : Projected db) {k : Host × Slot} {p : PatternProjection} :
    db.slotAt k = some p ↔ (k, p) ∈ slotsOf db (p.ns, p.worker) := h.slots k p

theorem Projected.queue_iff {db : Db} (h : Projected db) {k : Ns × String} {p : QueueProjection} :
    db.consumerOf k = some p ↔ (k, p) ∈ queuesOf db (k.1, p.worker) := h.queues k p

/-- Schedules are those of active versions. -/
def CronsActive (db : Db) : Prop := ∀ w c, db.cron w = some c → db.active w = some c.version

/-! ## The active bundle -/

section Active

variable {o : Outlook} {db db' : Db} {w : WorkerId} {version : Version} {m : Meta}

theorem Db.activeBundle_eq (ha : db.active w = some version)
    (hm : db.bundle (w.1, w.2, version) = some m) : db.activeBundle w = some (version, m) := by
  rw [Db.activeBundle, ha, Option.bind_some, hm, Option.map_some]

theorem Db.activeBundle_eq_none (ha : db.active w = none) : db.activeBundle w = none := by
  rw [Db.activeBundle, ha, Option.bind_none]

theorem Db.activeBundle_eq_some_iff : db.activeBundle w = some (version, m) ↔
    db.active w = some version ∧ db.bundle (w.1, w.2, version) = some m := by
  constructor
  · intro h
    obtain ⟨version', ha, h⟩ := Option.bind_eq_some_iff.1 h
    obtain ⟨m', hm, h⟩ := Option.map_eq_some_iff.1 h
    cases h
    exact ⟨ha, hm⟩
  · rintro ⟨ha, hm⟩
    exact Db.activeBundle_eq ha hm

/-- The bundle of an active version does not change while it is active. -/
theorem BundleStep.activeBundle {i : ℕ} (hheld : ∀ v, o.held v db → Held i v db) (hn : Numbered db)
    (hx : Indexed db) (hs : BundleStep o db db') (ha : db'.active w = db.active w) :
    db'.activeBundle w = db.activeBundle w := by
  cases hactive : db.active w with
  | none => rw [Db.activeBundle_eq_none hactive, Db.activeBundle_eq_none (ha.trans hactive)]
  | some version =>
    obtain ⟨m, hm⟩ := hx.stored hactive
    rw [Db.activeBundle_eq hactive hm]
    refine Db.activeBundle_eq (ha.trans hactive) ?_
    cases hs with
    | same bundle issued => rw [bundle, hm]
    | issue v m' held origin bundle issued =>
      have hne : (w.1, w.2, version) ≠ v := by
        rintro rfl
        cases (hn.notStored (hheld _ held).2).symm.trans hm
      rw [bundle, update_of_ne hne, hm]
    | remove w' gone versions issued inactive =>
      rw [versions.bundle_kept, hm]
      rintro ⟨rfl, hgone⟩
      exact inactive version hgone (ha.trans hactive)

theorem OldMeta.eq (ho : o.Remembers) (hinv : o.inv db) {oldMeta : Option Meta}
    (h : OldMeta o db w oldMeta) : oldMeta = (db.activeBundle w).map Prod.snd := by
  rw [OldMeta] at h
  cases hactive : (db.routes w.1).lookup w.2 with
  | none =>
    rw [hactive] at h
    rw [Db.activeBundle_eq_none hactive]
    exact h
  | some version =>
    rw [hactive] at h
    obtain ⟨m, rfl, d, hd, hrel, hread⟩ := h
    obtain ⟨m', hm'⟩ := (ho.indexed db hinv).stored hactive
    rw [Db.activeBundle_eq hactive hm', (ho.later d db hrel).bundle_eq (ho.numbered d hd)
      (ho.numbered db hinv) hread hm']
    rfl

end Active

/-! ## Entries -/

section Entries

variable {db : Db} {w : WorkerId} {x : Version × Meta}

theorem slotsOf_eq (h : db.activeBundle w = some x) : slotsOf db w = slotEntries w x := by
  rw [slotsOf, h]
  rfl

theorem slotsOf_eq_nil (h : db.activeBundle w = none) : slotsOf db w = [] := by
  rw [slotsOf, h]
  rfl

theorem queuesOf_eq (h : db.activeBundle w = some x) : queuesOf db w = queueEntries w x := by
  rw [queuesOf, h]
  rfl

theorem queuesOf_eq_nil (h : db.activeBundle w = none) : queuesOf db w = [] := by
  rw [queuesOf, h]
  rfl

variable {k : Host × Slot} {p : PatternProjection}

theorem mem_slotEntries :
    (k, p) ∈ slotEntries w x ↔ ∃ r ∈ x.2.routes, routeKey r = k ∧ r.projection w x.1 = p := by
  simp [slotEntries]

theorem mem_queueEntries {k : Ns × String} {p : QueueProjection} :
    (k, p) ∈ queueEntries w x ↔ ∃ c ∈ x.2.queueConsumers, (w.1, c.queue) = k ∧
      (⟨w.2, x.1, c⟩ : QueueProjection) = p := by
  simp [queueEntries]

theorem keys_slotEntries : (slotEntries w x).map Prod.fst = x.2.routes.map routeKey := by
  simp [slotEntries, comp_def]

theorem keys_queueEntries :
    (queueEntries w x).map Prod.fst = (x.2.queueConsumers.map (·.queue)).map fun q => (w.1, q) := by
  simp [queueEntries, comp_def]

theorem owner_of_mem_slotsOf (h : (k, p) ∈ slotsOf db w) :
    (p.ns, p.worker) = w := by
  cases ha : db.activeBundle w with
  | none =>
    rw [slotsOf_eq_nil ha] at h
    cases h
  | some x =>
    rw [slotsOf_eq ha, mem_slotEntries] at h
    obtain ⟨r, -, -, rfl⟩ := h
    rfl

theorem owner_of_mem_queuesOf {k : Ns × String} {p : QueueProjection} (h : (k, p) ∈ queuesOf db w) :
    (k.1, p.worker) = w := by
  cases ha : db.activeBundle w with
  | none =>
    rw [queuesOf_eq_nil ha] at h
    cases h
  | some x =>
    rw [queuesOf_eq ha, mem_queueEntries] at h
    obtain ⟨c, -, rfl, rfl⟩ := h
    rfl

end Entries

/-! ## Transactions -/

variable {losing : Finset Host} {stillActive : Bool}

section Steps

variable {o : Outlook} {db db' : Db} {w : WorkerId}

theorem Projected.of_eq (h : Projected db) (hactive : ∀ w, db'.activeBundle w = db.activeBundle w)
    (hpatterns : db'.patterns = db.patterns) (hqueues : db'.queueConsumers = db.queueConsumers) :
    Projected db' := by
  have hslots : slotsOf db' = slotsOf db := funext fun w => by rw [slotsOf, hactive, slotsOf]
  have hqueuesOf : queuesOf db' = queuesOf db := funext fun w => by rw [queuesOf, hactive, queuesOf]
  refine ⟨?_, ?_⟩
  · rw [hslots]
    unfold Db.slotAt
    rw [hpatterns]
    exact h.slots
  · rw [hqueuesOf]
    unfold Db.consumerOf
    rw [hqueues]
    exact h.queues

/-- The active bundle of one worker is replaced, and its entries with it. -/
theorem Projected.replace (h : Projected db)
    (hothers : ∀ w', w' ≠ w → db'.activeBundle w' = db.activeBundle w')
    (hslots : Replaced ((slotsOf db w).map Prod.fst) (slotsOf db' w) db.slotAt db'.slotAt)
    (hqueues : Replaced ((queuesOf db w).map Prod.fst) (queuesOf db' w)
      db.consumerOf db'.consumerOf)
    (hfreeSlots : ∀ k p, k ∈ (slotsOf db' w).map Prod.fst → db.slotAt k = some p →
      (p.ns, p.worker) = w)
    (hfreeQueues : ∀ k p, k ∈ (queuesOf db' w).map Prod.fst → db.consumerOf k = some p →
      (k.1, p.worker) = w) : Projected db' where
  slots := h.slots.replace hslots (fun w' hw => by rw [slotsOf, hothers w' hw, slotsOf])
    (fun _ _ => owner_of_mem_slotsOf) (fun _ _ => owner_of_mem_slotsOf) hfreeSlots
  queues := h.queues.replace hqueues (fun w' hw => by rw [queuesOf, hothers w' hw, queuesOf])
    (fun _ _ => owner_of_mem_queuesOf) (fun _ _ => owner_of_mem_queuesOf) hfreeQueues

variable {version : Version}

theorem active_ne_of_put {w' : WorkerId} (hw : w' ≠ w)
    (hroutes : db'.routes = update db.routes w.1 ((db.routes w.1).insert w.2 version)) :
    db'.active w' = db.active w' := by
  rw [Db.active, hroutes, Directory.lookup_put, if_neg hw]

theorem active_of_put
    (hroutes : db'.routes = update db.routes w.1 ((db.routes w.1).insert w.2 version)) :
    db'.active w = some version := by
  rw [Db.active, hroutes, Directory.lookup_put, if_pos rfl]

variable {p : PromoteInputs}

theorem PromoteInputs.oldRoutes_eq (h : p.oldMeta = (db.activeBundle w).map Prod.snd) :
    (slotsOf db w).map Prod.fst = p.oldRoutes.map routeKey := by
  rw [PromoteInputs.oldRoutes, h]
  cases ha : db.activeBundle w with
  | none => rw [slotsOf_eq_nil ha]; rfl
  | some x => rw [slotsOf_eq ha, keys_slotEntries]; rfl

theorem PromoteInputs.oldQueues_eq (h : p.oldMeta = (db.activeBundle w).map Prod.snd) :
    (queuesOf db w).map Prod.fst = (p.oldQueueConsumers.map (·.queue)).map fun q => (w.1, q) := by
  rw [PromoteInputs.oldQueueConsumers, h]
  cases ha : db.activeBundle w with
  | none => rw [queuesOf_eq_nil ha]; rfl
  | some x => rw [queuesOf_eq ha, keys_queueEntries]; rfl

/-- What the invariants say when a transaction commits. -/
structure Settled (o : Outlook) (i : ℕ) (db : Db) : Prop where
  remembers : o.Remembers
  held : ∀ v, o.held v db → Held i v db
  inv : o.inv db
  admitted : AllAdmitted db
  projected : Projected db

variable {x : Version × Meta}

theorem nodup_slotEntries (h : (x.2.routes.map routeKey).Nodup) :
    ((slotEntries w x).map Prod.fst).Nodup := by
  rwa [keys_slotEntries]

theorem nodup_queueEntries (h : (x.2.queueConsumers.map (·.queue)).Nodup) :
    ((queueEntries w x).map Prod.fst).Nodup := by
  rw [keys_queueEntries]
  exact h.map fun _ _ heq => (Prod.mk.inj heq).2

/-- The slots of the version that was active are replaced by those of the new one. -/
theorem Promoted.slots_replaced (hp : Promoted o db w p) (d : Db)
    (ho : o.Remembers) (hinv : o.inv db) (hadmitted : AllAdmitted db) :
    Replaced (p.oldRoutes.map routeKey) (slotEntries w (p.newVersion, p.newMeta)) db.slotAt
      (db.afterPromote w p d).slotAt := by
  have hnodup := (hadmitted _ _ ((ho.numbered db hinv).stored _ _ hp.candidate)).routes
  refine .put_drop _ (nodup_slotEntries hnodup) fun k => ?_
  rw [keys_slotEntries]
  simp only [mem_map, mem_filter, decide_eq_true_iff]
  constructor
  · rintro ⟨r, ⟨hr, hnot⟩, rfl⟩
    exact ⟨⟨r, hr, rfl⟩, hnot⟩
  · rintro ⟨⟨r, hr, rfl⟩, hnot⟩
    exact ⟨r, ⟨hr, hnot⟩, rfl⟩

variable {i : ℕ} {d : Db}

theorem Promoted.projected (hs : Settled o i db) (hp : Promoted o db w p)
    (hstep : BundleStep o db (db.afterPromote w p d)) : Projected (db.afterPromote w p d) := by
  have hn := hs.remembers.numbered db hs.inv
  have hx := hs.remembers.indexed db hs.inv
  have hroutes : (db.afterPromote w p d).routes =
      update db.routes w.1 ((db.routes w.1).insert w.2 p.newVersion) := rfl
  have hactive : (db.afterPromote w p d).activeBundle w = some (p.newVersion, p.newMeta) :=
    Db.activeBundle_eq (active_of_put hroutes) hp.candidate
  have hadmitted := hs.admitted _ _ (hn.stored _ _ hp.candidate)
  have hold := hp.old.eq hs.remembers hs.inv
  refine hs.projected.replace (w := w)
    (fun w' hw => hstep.activeBundle hs.held hn hx (active_ne_of_put hw hroutes)) ?_ ?_ ?_ ?_
  · rw [slotsOf_eq hactive, PromoteInputs.oldRoutes_eq hold]
    exact hp.slots_replaced d hs.remembers hs.inv hs.admitted
  · rw [queuesOf_eq hactive, PromoteInputs.oldQueues_eq hold]
    refine .drop_put _ (nodup_queueEntries hadmitted.queues) fun k => ?_
    rw [keys_queueEntries]
    simp only [mem_map, mem_filter, decide_eq_true_iff]
    constructor
    · rintro ⟨q, ⟨hq, hnot⟩, rfl⟩
      refine ⟨⟨q, hq, rfl⟩, ?_⟩
      rintro ⟨q', hq', hkey⟩
      obtain ⟨-, rfl⟩ := Prod.mk.inj hkey
      exact hnot hq'
    · rintro ⟨⟨q, hq, rfl⟩, hnot⟩
      exact ⟨q, ⟨hq, fun hq' => hnot ⟨q, hq', rfl⟩⟩, rfl⟩
  · intro k held hk hheld
    rw [slotsOf_eq hactive, keys_slotEntries] at hk
    obtain ⟨r, hr, rfl⟩ := mem_map.1 hk
    exact hp.free r hr held hheld
  · intro k held hk hheld
    rw [queuesOf_eq hactive, keys_queueEntries, map_map] at hk
    obtain ⟨c, hc, rfl⟩ := mem_map.1 hk
    exact Prod.ext rfl (hp.queues c hc held hheld)

/-- The slots of the active version are replaced by those of its copy, which has the same keys. -/
theorem Bumped.slots_replaced {p : BumpInputs} (hb : Bumped o db w p) (key : String)
    (mutation : SecretMutation) (d : Db) (hn : Numbered db) (hadmitted : AllAdmitted db) :
    Replaced ((slotsOf db w).map Prod.fst) (slotEntries w (p.newVersion, p.srcMeta)) db.slotAt
      (db.afterBump w p key mutation d).slotAt := by
  have hnodup := (hadmitted _ _ (hn.stored _ _ hb.source)).routes
  rw [slotsOf_eq (Db.activeBundle_eq hb.active hb.source), keys_slotEntries]
  exact .put_same (nodup_slotEntries hnodup) fun k hk => by rwa [keys_slotEntries]

theorem Bumped.projected (hs : Settled o i db) {p : BumpInputs} (hb : Bumped o db w p)
    {key : String} {mutation : SecretMutation}
    (hstep : BundleStep o db (db.afterBump w p key mutation d)) :
    Projected (db.afterBump w p key mutation d) := by
  have hn := hs.remembers.numbered db hs.inv
  have hx := hs.remembers.indexed db hs.inv
  have hroutes : (db.afterBump w p key mutation d).routes =
      update db.routes w.1 ((db.routes w.1).insert w.2 p.newVersion) := rfl
  have hactive : (db.afterBump w p key mutation d).activeBundle w =
      some (p.newVersion, p.srcMeta) :=
    Db.activeBundle_eq (active_of_put hroutes) (update_self ..)
  have hcurrent : db.activeBundle w = some (p.currentVersion, p.srcMeta) :=
    Db.activeBundle_eq hb.active hb.source
  have hadmitted := hs.admitted _ _ (hn.stored _ _ hb.source)
  -- the copy has the same keys
  have hslots :
    (slotsOf db w).map Prod.fst = (slotEntries w (p.newVersion, p.srcMeta)).map Prod.fst := by
    rw [slotsOf_eq hcurrent, keys_slotEntries, keys_slotEntries]
  have hqueues : (queuesOf db w).map Prod.fst =
      (queueEntries w (p.newVersion, p.srcMeta)).map Prod.fst := by
    rw [queuesOf_eq hcurrent, keys_queueEntries, keys_queueEntries]
  refine hs.projected.replace (w := w)
    (fun w' hw => hstep.activeBundle hs.held hn hx (active_ne_of_put hw hroutes)) ?_ ?_ ?_ ?_
  · rw [slotsOf_eq hactive]
    exact hb.slots_replaced key mutation d hn hs.admitted
  · rw [queuesOf_eq hactive]
    exact .put_same (nodup_queueEntries hadmitted.queues) fun k hk => hqueues ▸ hk
  · intro k held hk hheld
    rw [slotsOf_eq hactive, ← hslots] at hk
    exact hs.projected.slots.owner_of_mem (fun _ _ => owner_of_mem_slotsOf) hk hheld
  · intro k held hk hheld
    rw [queuesOf_eq hactive, ← hqueues] at hk
    exact hs.projected.queues.owner_of_mem (fun _ _ => owner_of_mem_queuesOf) hk hheld

variable {c : DeleteInputs}

theorem WorkerDeleted.routes_eq (ho : o.Remembers) (hinv : o.inv db)
    (hd : WorkerDeleted o db w c losing stillActive) :
    (slotsOf db w).map Prod.fst = c.activeRoutes.map routeKey := by
  have hroutes := hd.collected.routes
  rw [← hd.active] at hroutes
  cases hactive : (db.routes w.1).lookup w.2 with
  | none =>
    rw [hactive] at hroutes
    rw [slotsOf_eq_nil (Db.activeBundle_eq_none hactive), hroutes]
    rfl
  | some version =>
    rw [hactive] at hroutes
    obtain ⟨m, hm, hbefore⟩ := hroutes
    have hold : some m = (db.activeBundle w).map Prod.snd := by
      refine OldMeta.eq ho hinv ?_
      rw [OldMeta, hactive]
      exact ⟨m, rfl, hbefore⟩
    obtain ⟨x, hx, rfl⟩ := Option.map_eq_some_iff.1 hold.symm
    rw [slotsOf_eq hx, keys_slotEntries, hm]

theorem WorkerDeleted.slots_replaced (c : DeleteInputs) (d : Db) :
    Replaced (c.activeRoutes.map routeKey) [] db.slotAt
      (db.afterWorkerDelete w c losing stillActive d).slotAt :=
  .put_drop (c.activeRoutes.map routeKey) nodup_nil fun _ =>
    (and_iff_left not_mem_nil).symm

section

variable (hs : Settled o i db) (hprojected : ∀ d, o.inv d → Projected d)

include hs hprojected

/-- The scan finds every queue of the worker: it has consumed it all the time. -/
theorem WorkerDeleted.mem_queues (hd : WorkerDeleted o db w c losing stillActive) {k : Ns × String}
    (hk : k ∈ (queuesOf db w).map Prod.fst) : k.1 = w.1 ∧ k.2 ∈ c.queues := by
  cases hactive : db.activeBundle w with
  | none =>
    rw [queuesOf_eq_nil hactive] at hk
    cases hk
  | some x =>
    obtain ⟨version, m⟩ := x
    obtain ⟨ha, hm⟩ := Db.activeBundle_eq_some_iff.1 hactive
    rw [queuesOf_eq hactive, keys_queueEntries, map_map] at hk
    obtain ⟨consumer, hc, rfl⟩ := mem_map.1 hk
    refine ⟨rfl, hd.queues consumer.queue fun d hinv hrel hroutes => ?_⟩
    -- the same version was active, with the same metadata
    have ha' : d.active w = some version := by
      rw [Db.active, hroutes]
      exact ha
    obtain ⟨m', hm'⟩ := (hs.remembers.indexed d hinv).stored ha'
    have hsame : m = m' := (hs.remembers.later d db hrel).bundle_eq (hs.remembers.numbered d hinv)
      (hs.remembers.numbered db hs.inv) hm' hm
    refine ⟨⟨w.2, version, consumer⟩,
      (hprojected d hinv).queue_iff (k := (w.1, consumer.queue)).2 ?_, rfl⟩
    rw [queuesOf_eq (Db.activeBundle_eq ha' hm')]
    exact mem_queueEntries.2 ⟨consumer, hsame ▸ hc, rfl, rfl⟩

theorem WorkerDeleted.projected (hd : WorkerDeleted o db w c losing stillActive)
    (hstep : BundleStep o db (db.afterWorkerDelete w c losing stillActive d)) :
    Projected (db.afterWorkerDelete w c losing stillActive d) := by
  have hn := hs.remembers.numbered db hs.inv
  have hx := hs.remembers.indexed db hs.inv
  have hactive : ∀ w', (db.afterWorkerDelete w c losing stillActive d).active w' =
      if w' = w then none else db.active w' := Directory.lookup_drop db.routes w
  have hnone : (db.afterWorkerDelete w c losing stillActive d).activeBundle w = none :=
    Db.activeBundle_eq_none ((hactive w).trans (if_pos rfl))
  refine hs.projected.replace (w := w)
    (fun w' hw => hstep.activeBundle hs.held hn hx ((hactive w').trans (if_neg hw))) ?_ ?_ ?_ ?_
  · rw [slotsOf_eq_nil hnone, hd.routes_eq hs.remembers hs.inv]
    exact WorkerDeleted.slots_replaced c d
  · rw [queuesOf_eq_nil hnone]
    have hdropped : ∀ k : Ns × String,
        k ∈ (c.queues.sort (· ≤ ·)).map (fun q => (w.1, q)) ↔ k.1 = w.1 ∧ k.2 ∈ c.queues := by
      intro k
      simp only [mem_map, Finset.mem_sort]
      constructor
      · rintro ⟨q, hq, rfl⟩
        exact ⟨rfl, hq⟩
      · rintro ⟨hns, hq⟩
        exact ⟨k.2, hq, Prod.ext hns.symm rfl⟩
    refine ⟨fun x hx => absurd hx not_mem_nil, fun k hk _ => ?_, fun k _ hk => ?_⟩
    · rw [Db.consumerOf, Db.afterWorkerDelete, Directory.lookup_dropAll,
        if_pos ((hdropped k).2 (hd.mem_queues hs hprojected hk))]
    · rw [Db.consumerOf, Db.afterWorkerDelete, Directory.lookup_dropAll]
      split_ifs with hmem
      · -- only queues of the worker are dropped
        obtain ⟨hns, hq⟩ := (hdropped k).1 hmem
        cases hc : db.consumerOf k with
        | none => rfl
        | some held =>
          have howned : held.worker = w.2 := by
            refine hd.queuesOwned k.2 hq held ?_
            rw [← hns]
            exact hc
          have hentry := hs.projected.queue_iff.1 hc
          rw [hns, howned] at hentry
          exact absurd (mem_map.2 ⟨_, hentry, rfl⟩) hk
      · rfl
  · rw [slotsOf_eq_nil hnone]
    exact fun k held hk => absurd hk not_mem_nil
  · rw [queuesOf_eq_nil hnone]
    exact fun k held hk => absurd hk not_mem_nil

/-- Every transaction keeps the tables what is projected from active bundles. -/
theorem Transaction.projected (ht : Transaction o db db') : Projected db' := by
  have hn := hs.remembers.numbered db hs.inv
  have hx := hs.remembers.indexed db hs.inv
  have hstep := ht.bundleStep.1
  have hactive := fun (ha : db'.routes = db.routes) w =>
    hstep.activeBundle (w := w) hs.held hn hx (by rw [Db.active, ha])
  cases ht with
  | promote w p d hp => exact hp.projected hs hstep
  | bump w p key mutation d hb => exact hb.projected hs hstep
  | deleteWorker w c losing stillActive d hd => exact hd.projected hs hprojected hstep
  | deploy | secret | deleteVersion | deleteResidue | hosts | createDatabase | databaseReady
  | removeDatabase => exact hs.projected.of_eq (hactive rfl) rfl rfl

end

/-! ## Schedules -/

theorem CronsActive.of_eq (h : CronsActive db) (hcron : db'.cron = db.cron)
    (hroutes : db'.routes = db.routes) : CronsActive db' := by
  intro w c hc
  rw [Db.active, hroutes]
  exact h w c (hcron ▸ hc)

theorem CronsActive.activate (h : CronsActive db) {cron : WorkerId → Option CronProjection}
    (hmoved : CronMoved db w version cron) (hcron : db'.cron = cron)
    (hroutes : db'.routes = update db.routes w.1 ((db.routes w.1).insert w.2 version)) :
    CronsActive db' := by
  intro w' c hc
  rw [hcron] at hc
  by_cases hw : w' = w
  · subst hw
    rw [active_of_put hroutes, hmoved.version c hc]
  · rw [hmoved.others w' hw] at hc
    rw [active_ne_of_put hw hroutes]
    exact h w' c hc

theorem Transaction.cronsActive (ht : Transaction o db db') (h : CronsActive db) :
    CronsActive db' := by
  cases ht with
  | promote w p d hp hmoved => exact h.activate hmoved rfl rfl
  | bump w p key mutation d hb hmoved => exact h.activate hmoved rfl rfl
  | deleteWorker w c losing stillActive d hd =>
    intro w' cron hcron
    have hne : w' ≠ w := by
      rintro rfl
      exact absurd ((update_self ..).symm.trans hcron) (by simp)
    exact ((Directory.lookup_drop db.routes w w').trans (if_neg hne)).trans
      (h w' cron ((update_of_ne hne ..).symm.trans hcron))
  | deploy | secret | deleteVersion | deleteResidue | hosts | createDatabase | databaseReady
  | removeDatabase => exact h.of_eq rfl rfl

end Steps

end Wdl.Control
