import Wdl.Control.Access

/-!
# What bundles refer to

A bundle pins versions of other workers and D1 databases. Both record who refers to them, and
are not removed while someone does. `Referenced` says that everything a stored bundle refers to
exists and has recorded it, and `Transaction.referenced` that every transaction keeps it so:
one that stores a bundle watches what the bundle refers to, and one that removes something
watches its referrers.
-/

namespace Wdl.Control

open List Function

/-- What stored bundles refer to exists, and has recorded them. -/
structure Referenced (db : Db) : Prop where
  target : ∀ v m, db.bundle v = some m → ∀ ref ∈ extractOutgoingRefs m.bindings v.1,
    db.bundle ref.target ≠ none
  recorded : ∀ v m, db.bundle v = some m → ∀ ref ∈ extractOutgoingRefs m.bindings v.1,
    callerReferrerMember v ref.binding ∈ db.referrers ref.target
  database : ∀ v m, db.bundle v = some m → ∀ ref ∈ extractD1Refs m.bindings,
    ∃ r, db.database (v.1, ref.databaseId) = some r ∧ r.state = .ready
  databaseRecorded : ∀ v m, db.bundle v = some m → ∀ ref ∈ extractD1Refs m.bindings,
    callerReferrerMember v ref.binding ∈ db.databaseReferrers (v.1, ref.databaseId)
  identified : ∀ ns databaseId r, db.database (ns, databaseId) = some r → r.databaseId = databaseId
  /-- Only stored versions have referrers. -/
  present : ∀ v r, r ∈ db.referrers v → db.bundle v ≠ none

section Steps

variable {o : Outlook} {db db' : Db} {w : WorkerId}

theorem Referenced.of_eq (h : Referenced db) (hbundle : db'.bundle = db.bundle)
    (hreferrers : db'.referrers = db.referrers) (hdatabase : db'.database = db.database)
    (hdatabases : ∀ d, db.databaseReferrers d ⊆ db'.databaseReferrers d) : Referenced db' where
  target := by rw [hbundle]; exact h.target
  recorded := by rw [hbundle, hreferrers]; exact h.recorded
  database := by rw [hbundle, hdatabase]; exact h.database
  databaseRecorded v m hm ref href :=
    hdatabases _ (h.databaseRecorded v m (hbundle ▸ hm) ref href)
  identified := by rw [hdatabase]; exact h.identified
  present := by rw [hbundle, hreferrers]; exact h.present

/-! ## New bundles -/

variable {v : VersionId}

/-- A bundle is stored, and what it refers to exists and records it. -/
theorem Referenced.issue (h : Referenced db) {m : Meta} {outgoing : List OutgoingRef}
    {databases : List D1Ref} (hbundle : db'.bundle = update db.bundle v (some m))
    (hreferrers : db'.referrers = Index.insertAll db.referrers (outgoingEntries v outgoing))
    (hdatabases : db'.databaseReferrers = Index.insertAll db.databaseReferrers
      (d1Entries v databases))
    (hdatabase : db'.database = db.database)
    (houtgoing : ∀ ref ∈ extractOutgoingRefs m.bindings v.1, ref ∈ outgoing)
    (htarget : ∀ ref ∈ outgoing, db.bundle ref.target ≠ none)
    (hd1 : ∀ ref ∈ extractD1Refs m.bindings, ref ∈ databases)
    (hready : ∀ ref ∈ databases, ∃ r, db.database (v.1, ref.databaseId) = some r ∧
      r.state = .ready) :
    Referenced db' := by
  have hstored : ∀ v', db.bundle v' ≠ none → db'.bundle v' ≠ none := by
    intro v' hv'
    rw [hbundle, update_apply]
    split
    · exact Option.some_ne_none m
    · exact hv'
  -- a stored bundle is the new one or was there before
  have hcases : ∀ v' m', db'.bundle v' = some m' → (v' = v ∧ m' = m) ∨ db.bundle v' = some m' := by
    intro v' m' hm'
    rw [hbundle, update_apply] at hm'
    split at hm'
    · rename_i hv
      exact .inl ⟨hv, (Option.some_inj.1 hm').symm⟩
    · exact .inr hm'
  refine ⟨fun v' m' hm' ref href => ?_, fun v' m' hm' ref href => ?_, fun v' m' hm' ref href => ?_,
    fun v' m' hm' ref href => ?_, by rw [hdatabase]; exact h.identified, fun v' r hr => ?_⟩
  · rcases hcases v' m' hm' with ⟨rfl, rfl⟩ | hm'
    · exact hstored _ (htarget ref (houtgoing ref href))
    · exact hstored _ (h.target v' m' hm' ref href)
  · rw [hreferrers, Index.mem_insertAll]
    rcases hcases v' m' hm' with ⟨rfl, rfl⟩ | hm'
    · exact .inr (mem_map.2 ⟨ref, houtgoing ref href, rfl⟩)
    · exact .inl (h.recorded v' m' hm' ref href)
  · rw [hdatabase]
    rcases hcases v' m' hm' with ⟨rfl, rfl⟩ | hm'
    · exact hready ref (hd1 ref href)
    · exact h.database v' m' hm' ref href
  · rw [hdatabases, Index.mem_insertAll]
    rcases hcases v' m' hm' with ⟨rfl, rfl⟩ | hm'
    · exact .inr (mem_map.2 ⟨ref, hd1 ref href, rfl⟩)
    · exact .inl (h.databaseRecorded v' m' hm' ref href)
  · rw [hreferrers, Index.mem_insertAll] at hr
    rcases hr with hr | hr
    · exact hstored v' (h.present v' r hr)
    · obtain ⟨ref, href, heq⟩ := mem_map.1 hr
      obtain ⟨rfl, -⟩ := Prod.mk.inj heq
      exact hstored _ (htarget ref href)

variable {ref : D1Ref}

theorem mem_extractD1Refs {bindings : List (String × Binding)} :
    ref ∈ extractD1Refs bindings ↔
      ∃ databaseName, (ref.binding, Binding.d1 ref.databaseId databaseName) ∈ bindings := by
  rw [extractD1Refs, mem_filterMap]
  constructor
  · rintro ⟨⟨binding, b⟩, hb, heq⟩
    split at heq
    · rename_i databaseId databaseName hx
      cases hx
      cases heq
      exact ⟨databaseName, hb⟩
    · cases heq
  · rintro ⟨databaseName, hb⟩
    exact ⟨_, hb, rfl⟩

variable {prepared : Meta} {refs : List ResolvedD1Ref}

/-- The databases of the stored metadata are those that were resolved. -/
theorem mem_extractD1Refs_committedMeta
    (hrefs : ∀ ref ∈ extractD1Refs prepared.bindings, ∃ r ∈ refs, r.binding = ref.binding)
    {storageId : String} {workflowKey : String → String}
    (h : ref ∈ extractD1Refs (committedMeta prepared refs storageId workflowKey).bindings) :
    ref ∈ refs.map (·.toD1Ref) := by
  obtain ⟨databaseName, hb⟩ := mem_extractD1Refs.1 h
  rw [committedMeta, map_map] at hb
  obtain ⟨⟨name, b⟩, hb, heq⟩ := mem_map.1 hb
  rw [comp_apply, attachDatabases] at heq
  split at heq
  · rename_i r hfind
    have hname : r.binding = name := by simpa using List.find?_some hfind
    refine mem_map.2 ⟨r, mem_of_find?_eq_some hfind, ?_⟩
    obtain ⟨hbinding, hd1⟩ := Prod.mk.inj heq
    rw [ResolvedD1Ref.toD1Ref, hname, (Binding.d1.inj hd1).1]
    exact congrArg (D1Ref.mk · _) hbinding
  · -- a binding to a database is always resolved
    rename_i hfind
    cases b with
    | service | durableObject | other => cases heq
    | d1 databaseId name' =>
      obtain ⟨r, hr, hbinding⟩ := hrefs ⟨name, databaseId⟩ (mem_extractD1Refs.2 ⟨name', hb⟩)
      exact absurd hbinding (by simpa using List.find?_eq_none.1 hfind r hr)

/-- A resolved database is ready under the identifier it carries. -/
theorem Resolved.stored (hident : ∀ d, o.inv d → Referenced d) {ns : Ns} {resolved : ResolvedD1Ref}
    (h : Resolved o db ns ref resolved) :
    ∃ r, db.database (ns, resolved.database.databaseId) = some r ∧ r.state = .ready := by
  obtain ⟨id, ⟨d, hd, -, hread⟩, hwatched⟩ := h.found
  have hid : id = resolved.database.databaseId := ((hident d hd).identified ns id _ hread).symm
  exact ⟨resolved.database, hid ▸ hwatched hid, h.ready⟩

theorem Deployed.referenced (hident : ∀ d, o.inv d → Referenced d)
    (hd : Deployed o db v prepared refs) (storageId : String) (workflowKey : String → String)
    (h : Referenced db) : Referenced (db.afterDeploy v prepared refs storageId workflowKey) := by
  refine h.issue rfl rfl rfl rfl (fun ref href => ?_) (fun ref href => (hd.targets ref href).2)
    (fun ref href => mem_extractD1Refs_committedMeta (fun ref href => ?_) href) fun ref href => ?_
  · obtain ⟨ns, service, version, entrypoint, secrets, hb, htarget⟩ :=
      mem_extractOutgoingRefs.1 href
    exact mem_extractOutgoingRefs.2
      ⟨ns, service, version, entrypoint, secrets, mem_committedMeta_service hb, htarget⟩
  · obtain ⟨r, hr, hresolved⟩ := exists_of_forall₂ hd.resolved href
    exact ⟨r, hr, hresolved.binding⟩
  · obtain ⟨r, hr, rfl⟩ := mem_map.1 href
    obtain ⟨ref, -, hresolved⟩ := exists_of_forall₂_right hd.resolved hr
    exact hresolved.stored hident

theorem Bumped.referenced {p : BumpInputs} (hb : Bumped o db w p) (key : String)
    (mutation : SecretMutation) (d : Db) (h : Referenced db) :
    Referenced (db.afterBump w p key mutation d) :=
  h.issue (v := (w.1, w.2, p.newVersion)) rfl rfl rfl rfl (fun _ href => href)
    (h.target (w.1, w.2, p.currentVersion) _ hb.source) (fun _ href => href)
    (h.database (w.1, w.2, p.currentVersion) _ hb.source)

/-! ## Removals -/

/-- Versions that nobody refers to are removed. -/
theorem Referenced.remove (h : Referenced db) {gone : Version → Prop}
    (hg : VersionsGone db w gone db')
    (hunreferenced : ∀ version, gone version → db.referrers (w.1, w.2, version) = ∅)
    (hdatabase : db'.database = db.database) : Referenced db' := by
  have hkept : ∀ v m, db'.bundle v = some m →
      ¬ ((v.1, v.2.1) = w ∧ gone v.2.2) ∧ db.bundle v = some m := by
    intro v m hm
    have hnot : ¬ ((v.1, v.2.1) = w ∧ gone v.2.2) := by
      rintro ⟨rfl, hgone⟩
      rw [hg.bundle_gone v.2.2 hgone] at hm
      cases hm
    exact ⟨hnot, by rwa [hg.bundle_kept v hnot] at hm⟩
  -- a version with a referrer stays
  have hstays : ∀ (v : VersionId) r, r ∈ db.referrers v → ¬ ((v.1, v.2.1) = w ∧ gone v.2.2) := by
    rintro v r hr ⟨rfl, hgone⟩
    rw [hunreferenced v.2.2 hgone] at hr
    exact absurd hr (Finset.notMem_empty r)
  refine ⟨fun v m hm ref href => ?_, fun v m hm ref href => ?_, fun v m hm ref href => ?_,
    fun v m hm ref href => ?_, by rw [hdatabase]; exact h.identified, fun v r hr => ?_⟩
  · have hm := (hkept v m hm).2
    rw [hg.bundle_kept _ (hstays _ _ (h.recorded v m hm ref href))]
    exact h.target v m hm ref href
  · obtain ⟨hnot, hm⟩ := hkept v m hm
    have hrecorded := h.recorded v m hm ref href
    exact hg.referrers_kept _ _ hrecorded (hstays _ _ hrecorded) hnot
  · rw [hdatabase]
    exact h.database v m (hkept v m hm).2 ref href
  · obtain ⟨hnot, hm⟩ := hkept v m hm
    exact hg.databases_kept _ _ (h.databaseRecorded v m hm ref href) hnot
  · have hr := hg.referrers_sub v hr
    rw [hg.bundle_kept v (hstays v r hr)]
    exact h.present v r hr

/-! ## Databases -/

/-- The record of one database becomes `x`, which is the record of a ready one if a stored bundle
    may refer to it. -/
theorem Referenced.database_update (h : Referenced db) (ns : Ns) (databaseId : String)
    (x : Option DatabaseRecord) (hbundle : db'.bundle = db.bundle)
    (hreferrers : db'.referrers = db.referrers)
    (hdatabase : db'.database = update db.database (ns, databaseId) x)
    (hothers : ∀ d, d ≠ (ns, databaseId) → db'.databaseReferrers d = db.databaseReferrers d)
    (hident : ∀ r, x = some r → r.databaseId = databaseId)
    (hself : (∃ r, db.database (ns, databaseId) = some r ∧ r.state = .ready) →
      db.databaseReferrers (ns, databaseId) ≠ ∅ → (∃ r, x = some r ∧ r.state = .ready) ∧
        db.databaseReferrers (ns, databaseId) ⊆ db'.databaseReferrers (ns, databaseId)) :
    Referenced db' := by
  have hself' : ∀ v m, db.bundle v = some m → ∀ ref ∈ extractD1Refs m.bindings,
      (v.1, ref.databaseId) = (ns, databaseId) → (∃ r, x = some r ∧ r.state = .ready) ∧
        db.databaseReferrers (ns, databaseId) ⊆ db'.databaseReferrers (ns, databaseId) := by
    intro v m hm ref href heq
    have hready := h.database v m hm ref href
    have hrecorded := h.databaseRecorded v m hm ref href
    rw [heq] at hready hrecorded
    exact hself hready (Finset.ne_empty_of_mem hrecorded)
  refine ⟨by rw [hbundle]; exact h.target, by rw [hbundle, hreferrers]; exact h.recorded,
    fun v m hm ref href => ?_, fun v m hm ref href => ?_, fun ns' databaseId' r hr => ?_,
    by rw [hbundle, hreferrers]; exact h.present⟩
  · rw [hbundle] at hm
    rw [hdatabase, update_apply]
    split
    · rename_i heq
      exact (hself' v m hm ref href heq).1
    · exact h.database v m hm ref href
  · rw [hbundle] at hm
    have hrecorded := h.databaseRecorded v m hm ref href
    by_cases heq : (v.1, ref.databaseId) = (ns, databaseId)
    · rw [heq] at hrecorded ⊢
      exact (hself' v m hm ref href heq).2 hrecorded
    · rw [hothers _ heq]
      exact hrecorded
  · rw [hdatabase, update_apply] at hr
    split at hr
    · rename_i heq
      cases heq
      exact hident r hr
    · exact h.identified ns' databaseId' r hr

/-- A database that no stored bundle can refer to is removed. -/
theorem Referenced.removeDatabase (h : Referenced db) (ns : Ns) (database : DatabaseRecord)
    (change : DatabaseChange) (named : Bool)
    (hfree : (∃ r, db.database (ns, database.databaseId) = some r ∧ r.state = .ready) →
      db.databaseReferrers (ns, database.databaseId) = ∅) :
    Referenced (stageDatabaseRemoval ns database change named db) :=
  h.database_update ns database.databaseId none rfl rfl rfl
    (fun _ hd => update_of_ne hd ..) nofun
    fun hready hne => absurd (hfree hready) hne

/-- **References.** Every transaction keeps what stored bundles refer to. -/
theorem Transaction.referenced (hident : ∀ d, o.inv d → Referenced d) (ht : Transaction o db db')
    (h : Referenced db) : Referenced db' := by
  cases ht with
  | deploy v prepared refs storageId workflowKey hd =>
    exact hd.referenced hident storageId workflowKey h
  | promote w p d =>
    exact h.of_eq rfl rfl rfl fun d r hr => Index.mem_insertAll.2 (.inl hr)
  | bump w p key mutation d hb => exact hb.referenced key mutation d h
  | deleteVersion w version m last nothingLeft d hd hgone =>
    refine h.remove (hgone.frame rfl rfl rfl rfl) ?_ rfl
    rintro _ rfl
    exact hd.unreferenced
  | deleteWorker w c losing stillActive d hd hgone =>
    exact h.remove (hgone.frame rfl rfl rfl rfl) hd.unreferenced rfl
  | secret | deleteResidue | hosts => exact h.of_eq rfl rfl rfl fun _ => subset_rfl
  | createDatabase ns databaseName databaseId provisionalUntil hc _ =>
    refine h.database_update ns databaseId _ rfl rfl rfl (fun _ _ => rfl) (fun r hr => ?_) ?_
    · cases hr
      rfl
    · rintro ⟨r, hr, -⟩
      rw [hc] at hr
      cases hr
  | databaseReady ns database c hc _ =>
    refine h.database_update ns database.databaseId _ rfl rfl rfl (fun _ _ => rfl) (fun r hr => ?_)
      fun _ _ => ⟨⟨_, rfl, rfl⟩, subset_rfl⟩
    cases hr
    exact hc.id
  | removeDatabase ns database c change hc =>
    refine h.removeDatabase ns database _ _ ?_
    rintro ⟨r, hr, hready⟩
    rcases hc with ⟨-, hc⟩ | ⟨-, -, hunreferenced⟩
    · rw [hc.stored] at hr
      cases hr
      exact absurd (hc.state.symm.trans hready) (by decide)
    · exact hunreferenced

end Steps

end Wdl.Control
