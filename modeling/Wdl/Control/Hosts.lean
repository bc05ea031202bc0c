import Wdl.Control.Projections

/-!
# Hosts

A namespace declares the hosts that its workers may have slots on, and all slots of a host
belong to one namespace. `HostsCoherent` says so, and that the hosts recorded for a namespace are
exactly those on which it has a slot. Reconciling the declared hosts looks there, without
watching it, for the hosts it may withdraw.
-/

namespace Wdl.Control

open List Function

/-- Slots are on declared hosts, each host belongs to one namespace, and namespaces know the hosts
    they have slots on. -/
structure HostsCoherent (db : Db) : Prop where
  declared : ∀ k p, db.slotAt k = some p → k.1 ∈ db.hosts p.ns
  oneNs : ∀ host slot slot' p p', db.slotAt (host, slot) = some p →
    db.slotAt (host, slot') = some p' → p.ns = p'.ns
  nsHosts : ∀ ns host, host ∈ db.nsHosts ns ↔ ∃ slot p, db.slotAt (host, slot) = some p ∧ p.ns = ns

section Steps

variable {o : Outlook} {db db' : Db} {w : WorkerId}

theorem HostsCoherent.of_eq (h : HostsCoherent db) (hpatterns : db'.patterns = db.patterns)
    (hhosts : db'.hosts = db.hosts) (hnsHosts : db'.nsHosts = db.nsHosts) : HostsCoherent db' := by
  have hslot : db'.slotAt = db.slotAt := by
    unfold Db.slotAt
    rw [hpatterns]
  refine ⟨?_, ?_, ?_⟩
  · rw [hslot, hhosts]
    exact h.declared
  · rw [hslot]
    exact h.oneNs
  · rw [hslot, hnsHosts]
    exact h.nsHosts

variable {ns : Ns} {old : List (Host × Slot)} {new : List ((Host × Slot) × PatternProjection)}

/-- Slots of the namespace `ns` are replaced, on hosts of its own. -/
theorem HostsCoherent.replace (h : HostsCoherent db) (hr : Replaced old new db.slotAt db'.slotAt)
    (hns : ∀ x ∈ new, x.2.ns = ns) (hdeclared : ∀ x ∈ new, x.1.1 ∈ db.hosts ns)
    (hsame : ∀ x ∈ new, ∀ slot p, db.slotAt (x.1.1, slot) = some p → p.ns = ns)
    (hhosts : db'.hosts = db.hosts)
    (hnsHosts : ∀ ns host, host ∈ db'.nsHosts ns ↔
      ∃ slot p, db'.slotAt (host, slot) = some p ∧ p.ns = ns) :
    HostsCoherent db' := by
  refine ⟨fun k p hp => ?_, fun host slot slot' p p' hp hp' => ?_, hnsHosts⟩
  · rw [hhosts]
    rcases hr.cases hp with hnew | ⟨-, -, hp⟩
    · rw [hns _ hnew]
      exact hdeclared _ hnew
    · exact h.declared k p hp
  · rcases hr.cases hp with hnew | ⟨-, -, hp⟩
    · rw [hns _ hnew]
      rcases hr.cases hp' with hnew' | ⟨-, -, hp'⟩
      · exact (hns _ hnew').symm
      · exact (hsame _ hnew slot' p' hp').symm
    · rcases hr.cases hp' with hnew' | ⟨-, -, hp'⟩
      · rw [hns _ hnew']
        exact hsame _ hnew' slot p hp
      · exact h.oneNs host slot slot' p p' hp hp'

variable {k : Host × Slot}

/-- The slots of another namespace are as they were. -/
theorem slotAt_other_of_replaced {ns' : Ns} (hr : Replaced old new db.slotAt db'.slotAt)
    (hnew : ∀ x ∈ new, x.2.ns = ns) (hold : ∀ k p, k ∈ old → db.slotAt k = some p → p.ns = ns)
    (hfree : ∀ k p, k ∈ new.map Prod.fst → db.slotAt k = some p → p.ns = ns) (hne : ns' ≠ ns)
    {p : PatternProjection} (hp : p.ns = ns') :
    db'.slotAt k = some p ↔ db.slotAt k = some p := by
  constructor
  · intro hk
    rcases hr.cases hk with hmem | ⟨-, -, hk⟩
    · exact absurd ((hnew _ hmem).symm.trans hp).symm hne
    · exact hk
  · intro hk
    rw [hr.keep, hk]
    · exact fun hmem => hne (hp.symm.trans (hfree k p hmem hk))
    · exact fun hmem => hne (hp.symm.trans (hold k p hmem hk))

/-! ## Activations -/

variable {p : PromoteInputs} {host : Host}

/-- The affected hosts are looked at, and the others left alone. -/
theorem PromoteInputs.mem_nsHosts {hosts : Finset Host} :
    host ∈ (hosts ∪ p.nsHostsAdd ns) \ p.nsHostsRem ns ↔
      if host ∈ p.affectedHosts then
        OwnsHost ns p.oldRoutes p.newMeta.routes (p.hostState.at host) host
      else host ∈ hosts := by
  rw [PromoteInputs.nsHostsAdd, PromoteInputs.nsHostsRem]
  simp only [Finset.mem_sdiff, Finset.mem_union, mem_toFinset, mem_filter, decide_eq_true_iff]
  split_ifs with hmem
  · simp only [hmem, true_and, not_not]
    exact and_iff_right_of_imp .inr
  · simp [hmem]

theorem ns_of_mem_slotEntries {y : Version × Meta} {x : (Host × Slot) × PatternProjection}
    (hx : x ∈ slotEntries w y) : x.2.ns = w.1 := by
  obtain ⟨r, -, -, hr⟩ := mem_slotEntries.1 hx
  rw [← hr]
  rfl

/-- A slot that the active version of a worker declares is of its namespace. -/
theorem Projected.ns_of_key (h : Projected db) {q : PatternProjection}
    (hk : k ∈ (slotsOf db w).map Prod.fst) (hq : db.slotAt k = some q) : q.ns = w.1 :=
  congrArg Prod.fst (h.slots.owner_of_mem (fun _ _ => owner_of_mem_slotsOf) hk hq)

theorem Promoted.mem_affectedHosts (hp : Promoted o db w p)
    (hk : k ∈ p.newMeta.routes.map routeKey ∨ k ∈ p.oldRoutes.map routeKey) :
    k.1 ∈ p.affectedHosts := by
  rw [hp.affected, mem_eraseDups, mem_map]
  rcases hk with hk | hk
  · obtain ⟨r, hmem, rfl⟩ := mem_map.1 hk
    exact ⟨r, mem_append_right _ hmem, rfl⟩
  · obtain ⟨r, hmem, rfl⟩ := mem_map.1 hk
    exact ⟨r, mem_append_left _ hmem, rfl⟩

/-- The hosts of the namespace are those on which it has slots afterwards. -/
theorem Promoted.nsHosts_iff (hp : Promoted o db w p) (h : HostsCoherent db)
    (hr : Replaced (p.oldRoutes.map routeKey) (slotEntries w (p.newVersion, p.newMeta)) db.slotAt
      db'.slotAt) (host : Host) :
    host ∈ (db.nsHosts w.1 ∪ p.nsHostsAdd w.1) \ p.nsHostsRem w.1 ↔
      ∃ slot q, db'.slotAt (host, slot) = some q ∧ q.ns = w.1 := by
  rw [PromoteInputs.mem_nsHosts]
  split
  · rename_i hmem
    rw [hp.hostState, HostState.at_map hmem db.patterns, OwnsHost, Hash.any_iff]
    constructor
    · rintro (⟨r, hroute, rfl⟩ | ⟨slot, held, hheld, hown, hkept⟩)
      · exact ⟨r.slot, _, hr.put (routeKey r, r.projection w p.newVersion)
          (mem_slotEntries.2 ⟨r, hroute, rfl, rfl⟩), rfl⟩
      · by_cases hnew : (host, slot) ∈ (slotEntries w (p.newVersion, p.newMeta)).map Prod.fst
        · obtain ⟨x, hx, hkey⟩ := mem_map.1 hnew
          exact ⟨slot, x.2, hkey ▸ hr.put x hx, ns_of_mem_slotEntries hx⟩
        · refine ⟨slot, held, ?_, hown⟩
          rw [hr.keep _ hnew fun hold => hkept ⟨hold, by rwa [keys_slotEntries] at hnew⟩]
          exact hheld
    · rintro ⟨slot, q, hq, hown⟩
      rcases hr.cases hq with hnew | ⟨-, hnot, hq⟩
      · obtain ⟨r, hroute, hkey, -⟩ := mem_slotEntries.1 hnew
        exact .inl ⟨r, hroute, congrArg Prod.fst hkey⟩
      · exact .inr ⟨slot, q, hq, hown, fun hmem => hnot hmem.1⟩
  · -- nothing changes on the host
    rename_i hmem
    rw [h.nsHosts]
    refine exists_congr fun slot => exists_congr fun q => ?_
    rw [hr.keep (host, slot)]
    · intro hnew
      rw [keys_slotEntries] at hnew
      exact hmem (hp.mem_affectedHosts (k := (host, slot)) (.inl hnew))
    · exact fun hold => hmem (hp.mem_affectedHosts (k := (host, slot)) (.inr hold))

variable {i : ℕ}

theorem Promoted.hostsCoherent (hs : Settled o i db) (hp : Promoted o db w p) (d : Db)
    (h : HostsCoherent db) : HostsCoherent (db.afterPromote w p d) := by
  have hr := hp.slots_replaced d hs.remembers hs.inv hs.admitted
  have hold := PromoteInputs.oldRoutes_eq (hp.old.eq hs.remembers hs.inv)
  refine h.replace hr (fun _ => ns_of_mem_slotEntries) ?_ ?_ rfl fun ns host => ?_
  · rintro ⟨k, q⟩ hx
    obtain ⟨r, hmem, rfl, -⟩ := mem_slotEntries.1 hx
    exact hp.declared r hmem
  · rintro ⟨k, q⟩ hx slot held hheld
    obtain ⟨r, hmem, rfl, -⟩ := mem_slotEntries.1 hx
    exact hp.sameNs r hmem slot held hheld
  · change host ∈ update db.nsHosts w.1 _ ns ↔ _
    by_cases hw : ns = w.1
    · subst hw
      rw [update_self]
      exact hp.nsHosts_iff h hr host
    · rw [update_of_ne hw, h.nsHosts]
      refine exists_congr fun slot => exists_congr fun q => and_congr_left fun hq => ?_
      refine (slotAt_other_of_replaced hr (fun _ => ns_of_mem_slotEntries)
        (fun k q hk => hs.projected.ns_of_key (hold ▸ hk)) (fun k q hk hq => ?_) hw hq).symm
      rw [keys_slotEntries] at hk
      obtain ⟨r, hmem, rfl⟩ := mem_map.1 hk
      exact congrArg Prod.fst (hp.free r hmem q hq)

theorem Bumped.hostsCoherent (hs : Settled o i db) {p : BumpInputs} (hb : Bumped o db w p)
    (key : String) (mutation : SecretMutation) (d : Db) (h : HostsCoherent db) :
    HostsCoherent (db.afterBump w p key mutation d) := by
  have hr := hb.slots_replaced key mutation d (hs.remembers.numbered db hs.inv) hs.admitted
  have hkeys :
    (slotsOf db w).map Prod.fst = (slotEntries w (p.newVersion, p.srcMeta)).map Prod.fst := by
    rw [slotsOf_eq (Db.activeBundle_eq hb.active hb.source), keys_slotEntries, keys_slotEntries]
  -- the slots that are written were slots of the worker before
  have hheld : ∀ k ∈ (slotEntries w (p.newVersion, p.srcMeta)).map Prod.fst,
      ∃ q, db.slotAt k = some q ∧ q.ns = w.1 := by
    intro k hk
    rw [← hkeys] at hk
    obtain ⟨⟨k, q⟩, hq, rfl⟩ := mem_map.1 hk
    have hslot : db.slotAt k = some q :=
      hs.projected.slots.find (fun _ _ => owner_of_mem_slotsOf) hq
    exact ⟨q, hslot, hs.projected.ns_of_key hk hslot⟩
  refine h.replace hr (fun _ => ns_of_mem_slotEntries) ?_ ?_ rfl fun ns host => ?_
  · rintro ⟨k, q⟩ hx
    obtain ⟨r, hmem, rfl, -⟩ := mem_slotEntries.1 hx
    exact hb.declared r hmem
  · rintro ⟨k, q⟩ hx slot held hslot
    obtain ⟨q', hq', hns⟩ := hheld k (mem_map.2 ⟨_, hx, rfl⟩)
    exact (h.oneNs k.1 slot k.2 held q' hslot hq').trans hns
  · refine (h.nsHosts ns host).trans ?_
    constructor
    · rintro ⟨slot, q, hq, rfl⟩
      by_cases hk : (host, slot) ∈ (slotEntries w (p.newVersion, p.srcMeta)).map Prod.fst
      · obtain ⟨x, hx, hkey⟩ := mem_map.1 hk
        refine ⟨slot, x.2, hkey ▸ hr.put x hx, ?_⟩
        rw [ns_of_mem_slotEntries hx, hs.projected.ns_of_key (hkeys ▸ hk) hq]
      · exact ⟨slot, q, (hr.keep _ hk fun hold => hk (hkeys ▸ hold)).trans hq, rfl⟩
    · rintro ⟨slot, q, hq, rfl⟩
      rcases hr.cases hq with hnew | ⟨-, -, hq⟩
      · obtain ⟨q', hq', hns⟩ := hheld _ (mem_map.2 ⟨_, hnew, rfl⟩)
        exact ⟨slot, q', hq', hns.trans (ns_of_mem_slotEntries hnew).symm⟩
      · exact ⟨slot, q, hq, rfl⟩

/-! ## Removals -/

/-- The hosts that the namespace loses are those where it has no other slot. -/
theorem mem_findHostsLosingNsOwnership {activeRoutes : List RoutePattern} {hosts : List Host}
    {f : Host → Hash Slot PatternProjection} :
    host ∈ findHostsLosingNsOwnership ns activeRoutes (hosts.map fun host => (host, f host)) ↔
      host ∈ hosts ∧ ∀ slot p, (f host).lookup slot = some p →
        (host, slot) ∉ activeRoutes.map routeKey → p.ns ≠ ns := by
  rw [findHostsLosingNsOwnership]
  simp only [mem_toFinset, mem_map, mem_filter, decide_eq_true_iff, Hash.any_iff]
  constructor
  · rintro ⟨x, ⟨⟨host', hmem, rfl⟩, hnone⟩, rfl⟩
    refine ⟨hmem,
      fun slot p hp hnot hns => hnone ⟨slot, p, hp, fun r hr hkey => hnot ⟨r, hr, hkey⟩, hns⟩⟩
  · rintro ⟨hmem, hnone⟩
    refine ⟨(host, f host), ⟨⟨host, hmem, rfl⟩, ?_⟩, rfl⟩
    rintro ⟨slot, p, hp, hnot, hns⟩
    refine hnone slot p hp ?_ hns
    rintro ⟨r, hr, hkey⟩
    exact hnot r hr hkey

theorem WorkerDeleted.hostsCoherent (hs : Settled o i db) {c : DeleteInputs}
    {losing : Finset Host} {stillActive : Bool} (hd : WorkerDeleted o db w c losing stillActive)
    (d : Db) (h : HostsCoherent db) :
    HostsCoherent (db.afterWorkerDelete w c losing stillActive d) := by
  have hr := @WorkerDeleted.slots_replaced losing stillActive db w c d
  have hkeys := hd.routes_eq hs.remembers hs.inv
  -- a slot that stays was there and is not one of the active routes
  have hslot : ∀ k q, (db.afterWorkerDelete w c losing stillActive d).slotAt k = some q ↔
      k ∉ c.activeRoutes.map routeKey ∧ db.slotAt k = some q := by
    intro k q
    constructor
    · intro hq
      rcases hr.cases hq with hnew | ⟨-, hnot, hq⟩
      · cases hnew
      · exact ⟨hnot, hq⟩
    · rintro ⟨hnot, hq⟩
      rw [hr.keep k not_mem_nil hnot, hq]
  have hns : ∀ x ∈ ([] : List ((Host × Slot) × PatternProjection)), x.2.ns = w.1 :=
    fun x hx => absurd hx not_mem_nil
  refine h.replace hr hns (fun x hx => absurd hx not_mem_nil)
    (fun x hx => absurd hx not_mem_nil) rfl fun ns host => ?_
  simp only [hslot]
  change host ∈ update db.nsHosts w.1 _ ns ↔ _
  by_cases hw : ns = w.1
  · subst hw
    rw [update_self, Finset.mem_sdiff, hd.losing, mem_findHostsLosingNsOwnership, h.nsHosts]
    constructor
    · rintro ⟨⟨slot, q, hq, hns⟩, hkept⟩
      by_cases hhost : host ∈ c.affectedHosts
      · have hother : ¬ ∀ slot p, (db.patterns host).lookup slot = some p →
            (host, slot) ∉ c.activeRoutes.map routeKey → p.ns ≠ w.1 :=
              fun hall => hkept ⟨hhost, hall⟩
        push Not at hother
        obtain ⟨slot, q, hq, hnot, hns⟩ := hother
        exact ⟨slot, q, ⟨hnot, hq⟩, hns⟩
      · refine ⟨slot, q, ⟨fun hmem => hhost ?_, hq⟩, hns⟩
        obtain ⟨r, hroute, hkey⟩ := mem_map.1 hmem
        exact mem_eraseDups.2 (mem_map.2 ⟨r, hroute, congrArg Prod.fst hkey⟩)
    · rintro ⟨slot, q, ⟨hnot, hq⟩, hns⟩
      exact ⟨⟨slot, q, hq, hns⟩, fun hall => hall.2 slot q hq hnot hns⟩
  · rw [update_of_ne hw, h.nsHosts]
    refine exists_congr fun slot => exists_congr fun q => and_congr_left fun hns => ?_
    refine ⟨fun hq => ⟨fun hmem => hw ?_, hq⟩, And.right⟩
    rw [← hns]
    exact hs.projected.ns_of_key (hkeys ▸ hmem) hq

theorem HostsReconciled.hostsCoherent {toAdd : Finset Host} {removals : List (Host × Finset Ns)}
    (hcoherent : ∀ d, o.inv d → HostsCoherent d)
    (hr : HostsReconciled o db ns toAdd removals) (d : Db)
    (h : HostsCoherent db) : HostsCoherent (db.afterHosts ns toAdd removals d) := by
  refine ⟨fun k p hp => ?_, h.oneNs, h.nsHosts⟩
  have hdeclared := h.declared k p hp
  show k.1 ∈ update db.hosts ns _ p.ns
  rw [update_apply]
  split_ifs with hns
  · rw [Finset.mem_sdiff, Finset.mem_union]
    refine ⟨.inl (hns ▸ hdeclared), fun hmem => ?_⟩
    rw [mem_toFinset] at hmem
    obtain ⟨r, hmem, hhost⟩ := mem_map.1 hmem
    -- the host is withdrawn: it has no slot of the namespace now, or it had none earlier and its
    -- slots have not changed since
    rcases hr.unused r hmem with hunused | ⟨d, hd, -, hnone, hpatterns⟩
    · rw [hhost] at hunused
      exact hunused k.2 p hp hns
    · rw [hhost] at hnone hpatterns
      refine hnone (((hcoherent d hd).nsHosts ns k.1).2 ⟨k.2, p, ?_, hns⟩)
      rw [Db.slotAt, hpatterns]
      exact hp
  · exact hdeclared

/-- Every transaction keeps slots on declared hosts, and hosts in one namespace. -/
theorem Transaction.hostsCoherent (hs : Settled o i db)
    (hcoherent : ∀ d, o.inv d → HostsCoherent d) (ht : Transaction o db db')
    (h : HostsCoherent db) : HostsCoherent db' := by
  cases ht with
  | promote w p d hp => exact hp.hostsCoherent hs d h
  | bump w p key mutation d hb => exact hb.hostsCoherent hs key mutation d h
  | deleteWorker w c losing stillActive d hd => exact hd.hostsCoherent hs d h
  | hosts ns toAdd removals d hr => exact hr.hostsCoherent hcoherent d h
  | deploy | secret | deleteVersion | deleteResidue | createDatabase | databaseReady
  | removeDatabase => exact h.of_eq rfl rfl rfl

end Steps

end Wdl.Control
