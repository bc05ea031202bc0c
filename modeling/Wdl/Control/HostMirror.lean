import Wdl.Control.Effects
import Wdl.Control.HostIndexes

/-!
# The indexes of declared hosts mirror the declarations

In every world that is reached from a database whose indexes mirror the declarations, by any
interleaving of reconciles and rebuilds, they still do (`mirrored_of_reachable`). A reconcile
keeps them, as it watches the index entries of the hosts that it removes; a rebuild, as it only
commits if the revision, and with it the declarations, have not changed since before its scans.

In particular, a rebuild during which a reconcile has committed is refused
(`exec_refused_of_overlapped`). A rebuild that commits brings the indexes in line from
wherever they were (`mirrored_of_rebuild`).
-/

namespace Wdl.Control

open List Function

open Session (Ensures Seen CommitsOnly Scanless)

/-! ## Reconciles -/

theorem CommitsOnly.retrying {α : Type} {V : (Db → Db) → Prop} {p : SessionM (Verdict Db α)}
    (h : p.CommitsOnly V) : (retrying p).CommitsOnly V := by
  induction p with
  | ret v => exact h
  | fail e => cases e <;> trivial
  | call c f ih => exact fun x => ih x (h x)

theorem Scanless.retrying {α : Type} {p : SessionM (Verdict Db α)} (h : p.Scanless) :
    (retrying p).Scanless := by
  refine h.attempt.bind fun r => ?_
  cases r with
  | ok v => trivial
  | error e => cases e <;> trivial

theorem scanless_reconcileSession (ns : Ns) (hosts : Finset Host) :
    (reconcileSession ns hosts).Scanless := by
  refine fun _ current => ?_
  show Scanless (if _ then _ else _)
  split
  · trivial
  · refine fun _ _ nsHosts => .bind (p := Prog.forEach _ _) (.forEach fun host => ?_) fun _ =>
      Scanless.bind (p := Prog.forEach _ _) (.forEach fun host => ?_) fun removals => trivial
    · intro slots
      show Scanless (refuseIf _ _)
      rw [refuseIf]
      split <;> trivial
    · exact fun declared => trivial

/-- A reconcile only adds hosts of its request. -/
theorem commitsOnly_reconcileSession (ns : Ns) (hosts : Finset Host) :
    (reconcileSession ns hosts).CommitsOnly fun m => ∃ toAdd removals, toAdd ⊆ hosts ∧
      m = stageDeclaredHostChanges ns toAdd removals := by
  refine fun _ current => ?_
  show CommitsOnly _ (if _ then _ else _)
  split
  · trivial
  · refine fun _ _ nsHosts => .bind (.forEach _ _) fun _ =>
      CommitsOnly.bind (.forEach _ _) fun removals => ?_
    exact ⟨_, removals, Finset.sdiff_subset, rfl⟩

/-- The outlook of a process that relies on nothing. -/
def noOutlook : Outlook := ⟨fun _ => True, fun _ _ => True, fun _ _ => True, fun _ _ => True⟩

/-- What a reconcile knows when it commits. -/
structure ReconcileCommit (db : Db) (ns : Ns) (hosts : Finset Host) (m : Db → Db) : Prop where
  known : ∃ toAdd removals, m = stageDeclaredHostChanges ns toAdd removals ∧
    HostsReconciled noOutlook db ns toAdd removals
  added : ∃ toAdd removals, toAdd ⊆ hosts ∧ m = stageDeclaredHostChanges ns toAdd removals

variable {A : Db × ℕ → Prop}

theorem ensures_reconcile (ns : Ns) (hosts : Finset Host) {R : Db × ℕ → Db × ℕ → Prop}
    (s : Db × ℕ) :
    Ensures (K := revisedKeyed) A R s ∅ ((retrying (reconcileSession ns hosts)).revise hostPresent)
      fun _ r => ∀ m a, r = .commit m a →
        ∃ m', ReconcileCommit s.1 ns hosts m' ∧ m = fun s => (m' s.1, s.2 + 1) := by
  have hknown := ensures_retrying (reconcileSession_ensures (o := noOutlook) (A := fun _ => True)
    (fun _ _ => trivial) ns hosts s.1)
  have hboth :=
    hknown.and_commitsOnly (CommitsOnly.retrying (commitsOnly_reconcileSession ns hosts))
  refine (Ensures.revise (Scanless.retrying (scanless_reconcileSession ns hosts))
    (fun k hk => absurd hk (Set.notMem_empty k)) hboth).mono fun W r hr m a heq => ?_
  subst heq
  obtain ⟨W, m', ⟨hT, hV⟩, rfl⟩ := hr
  exact ⟨m', ⟨hT, hV m' a rfl⟩, rfl⟩

/-! ## What a reconcile changes -/

section Changes

variable {ns : Ns} {D : Host → Finset Ns}

/-- The declarations of a host that is to be removed are those that were read, or the namespace
    has been removed from them already. -/
def Removable (ns : Ns) (D : Host → Finset Ns) (db : Db) (host : Host) : Prop :=
  db.hostDeclarations host = D host ∨ db.hostDeclarations host = (D host).erase ns

theorem hostDeclarations_stageDeclaredHostRemoval {db : Db} {host : Host}
    (h : Removable ns D db host) :
    (stageDeclaredHostRemoval ns host (D host) db).hostDeclarations =
      update db.hostDeclarations host ((D host).erase ns) := by
  have hvalue : (if (D host).erase ns = ∅ then ∅ else (db.hostDeclarations host).erase ns) =
      (D host).erase ns := by
    split
    next hempty => exact hempty.symm
    next =>
      rcases h with h | h
      · rw [h]
      · rw [h, Finset.erase_idem]
  exact congrArg (update db.hostDeclarations host) hvalue

/-- What becomes of the declarations when hosts are removed one after the other. -/
theorem hostDeclarations_foldl_removal {removals : List (Host × Finset Ns)} {db : Db}
    (hD : ∀ r ∈ removals, r.2 = D r.1) (hdb : ∀ r ∈ removals, Removable ns D db r.1) (host : Host) :
    (removals.foldl (fun db r => stageDeclaredHostRemoval ns r.1 r.2 db) db).hostDeclarations host =
      if host ∈ removals.map Prod.fst then (D host).erase ns else db.hostDeclarations host := by
  induction removals generalizing db with
  | nil => rfl
  | cons r removals ih =>
    obtain ⟨hr, hD⟩ := forall_mem_cons.1 hD
    obtain ⟨hrdb, hdb⟩ := forall_mem_cons.1 hdb
    have hstep := hostDeclarations_stageDeclaredHostRemoval hrdb
    rw [foldl_cons, hr, ih hD fun r' hr' => ?_, hstep]
    · by_cases hhost : host = r.1
      · rw [hhost, update_self, ite_self, if_pos (by simp)]
      · rw [update_of_ne hhost]
        simp only [map_cons, mem_cons, hhost, false_or]
    · rw [Removable, hstep]
      by_cases heq : r'.1 = r.1
      · rw [heq, update_self]
        exact .inr rfl
      · rw [update_of_ne heq]
        exact hdb r' hr'

/-- What becomes of the set of declared hosts. -/
theorem declaredHosts_foldl_removal {removals : List (Host × Finset Ns)} {db : Db}
    (hD : ∀ r ∈ removals, r.2 = D r.1) (host : Host) :
    host ∈ (removals.foldl (fun db r => stageDeclaredHostRemoval ns r.1 r.2 db) db).declaredHosts ↔
      host ∈ db.declaredHosts ∧ ¬ (host ∈ removals.map Prod.fst ∧ (D host).erase ns = ∅) := by
  induction removals generalizing db with
  | nil => simp
  | cons r removals ih =>
    obtain ⟨hr, hD⟩ := forall_mem_cons.1 hD
    have hstep : host ∈ (stageDeclaredHostRemoval ns r.1 (D r.1) db).declaredHosts ↔
        host ∈ db.declaredHosts ∧ ¬ (host = r.1 ∧ (D host).erase ns = ∅) := by
      rw [stageDeclaredHostRemoval]
      by_cases hempty : (D r.1).erase ns = ∅
      · simp only [if_pos hempty, Finset.mem_erase]
        constructor
        · exact fun h => ⟨h.2, fun h' => h.1 h'.1⟩
        · rintro ⟨hmem, hne⟩
          exact ⟨fun heq => hne ⟨heq, heq ▸ hempty⟩, hmem⟩
      · simp only [if_neg hempty]
        exact ⟨fun h => ⟨h, fun h' => hempty (h'.1 ▸ h'.2)⟩, And.left⟩
    rw [foldl_cons, hr, ih hD, hstep, map_cons, mem_cons]
    tauto

end Changes

theorem hosts_stageDeclaredHostChanges (ns : Ns) (toAdd : Finset Host)
    (removals : List (Host × Finset Ns)) (db : Db) :
    (stageDeclaredHostChanges ns toAdd removals db).hosts =
      update db.hosts ns ((db.hosts ns ∪ toAdd) \ (removals.map Prod.fst).toFinset) := by
  obtain ⟨d, heq⟩ := stageDeclaredHostChanges_eq ns toAdd removals db
  rw [heq, Db.afterHosts]

/-- No host and no namespace has an empty name. -/
def Named (db : Db) : Prop := ∀ ns host, host ∈ db.hosts ns → ns ≠ "" ∧ host ≠ ""

theorem Named.reconcile {db : Db} (h : Named db) {ns : Ns} {hosts : Finset Host}
    (hns : ns ≠ "") (hhosts : "" ∉ hosts) {m : Db → Db} (hm : ReconcileCommit db ns hosts m) :
    Named (m db) := by
  obtain ⟨toAdd, removals, hadd, rfl⟩ := hm.added
  intro ns' host hhost
  rw [hosts_stageDeclaredHostChanges] at hhost
  rcases eq_or_ne ns' ns with rfl | hne
  · rw [update_self] at hhost
    rcases Finset.mem_union.1 (Finset.mem_sdiff.1 hhost).1 with hold | hnew
    · exact h ns' host hold
    · exact ⟨hns, fun heq => hhosts (heq ▸ hadd hnew)⟩
  · rw [update_of_ne hne] at hhost
    exact h ns' host hhost

/-- A reconcile keeps the indexes in line with the declarations. -/
theorem Mirrored.reconcile {db : Db} (h : Mirrored db) {ns : Ns} {hosts : Finset Host}
    (hns : ns ≠ "") (hhosts : "" ∉ hosts) {m : Db → Db} (hm : ReconcileCommit db ns hosts m) :
    Mirrored (m db) := by
  have hnamed := Named.reconcile h.named hns hhosts hm
  obtain ⟨toAdd, removals, rfl, hknown⟩ := hm.known
  have hadded : ∀ host ∈ removals.map Prod.fst, host ∉ toAdd := fun host hr ha =>
    Finset.disjoint_left.1 hknown.added ha (mem_toFinset.2 hr)
  have hdeclarations :
    ∀ host, (stageDeclaredHostChanges ns toAdd removals db).hostDeclarations host =
      if host ∈ removals.map Prod.fst then (db.hostDeclarations host).erase ns
      else if host ∈ toAdd then insert ns (db.hostDeclarations host)
      else db.hostDeclarations host :=
    hostDeclarations_foldl_removal hknown.declarations fun r hr =>
      .inl (if_neg (hadded r.1 (mem_map_of_mem hr)))
  have hmirror :
    ∀ host ns', ns' ∈ (stageDeclaredHostChanges ns toAdd removals db).hostDeclarations host ↔
      host ∈ (stageDeclaredHostChanges ns toAdd removals db).hosts ns' := by
    intro host ns'
    rw [hdeclarations, hosts_stageDeclaredHostChanges, update_apply]
    have hold := h.declarations host ns'
    grind only [Finset.mem_erase, Finset.mem_insert, Finset.mem_sdiff, Finset.mem_union,
      mem_toFinset]
  refine ⟨hmirror, fun host => ?_, hnamed⟩
  have hdeclared : host ∈ (stageDeclaredHostChanges ns toAdd removals db).declaredHosts ↔
      host ∈ db.declaredHosts ∪ toAdd ∧
        ¬ (host ∈ removals.map Prod.fst ∧ (db.hostDeclarations host).erase ns = ∅) :=
    declaredHosts_foldl_removal hknown.declarations host
  rw [hdeclared, hdeclarations, Finset.mem_union, h.declared]
  by_cases hr : host ∈ removals.map Prod.fst
  · simp only [hr, hadded host hr, or_false, true_and, if_true, ← Finset.nonempty_iff_ne_empty]
    exact ⟨And.right, fun hne => ⟨hne.mono (Finset.erase_subset ns _), hne⟩⟩
  · by_cases ha : host ∈ toAdd
    · simp only [hr, ha, or_true, false_and, not_false_eq_true, and_self, if_false, if_true,
        Finset.insert_nonempty]
    · simp only [hr, ha, or_false, false_and, not_false_eq_true, and_true, if_false]

/-! ## Rebuilds -/

/-- What a rebuild has read when it commits. -/
structure RebuildInputs (db : Db) (members : List (Ns × Finset Host))
    (oldDeclarationKeys : List Host) : Prop where
  stored : ∀ m ∈ members, m.2 = db.hosts m.1
  complete : ∀ ns, (db.hosts ns).Nonempty → (ns, db.hosts ns) ∈ members
  /-- Another rebuild may have just brought the indexes in line. -/
  old : (∀ host, (db.hostDeclarations host).Nonempty → host ∈ oldDeclarationKeys) ∨ Mirrored db

variable {members : List (Ns × Finset Host)}

theorem mem_declaredBy {host : Host} :
    host ∈ declaredBy members ↔ ∃ m ∈ members, host ∈ m.2 ∧ host ≠ "" := by
  induction members with
  | nil => simp [declaredBy]
  | cons m members ih =>
    have hcons : declaredBy (m :: members) = m.2.erase "" ∪ declaredBy members := rfl
    rw [hcons, Finset.mem_union, ih, Finset.mem_erase, exists_mem_cons_iff, and_comm]

theorem mem_declarationsByHost {host : Host} {ns : Ns} :
    ns ∈ declarationsByHost members host ↔ ∃ m ∈ members, m.1 = ns ∧ host ∈ m.2 ∧ host ≠ "" := by
  simp only [declarationsByHost, mem_toFinset, mem_map, mem_filter, decide_eq_true_eq]
  constructor
  · rintro ⟨m, ⟨hm, hhost⟩, rfl⟩
    exact ⟨m, hm, rfl, hhost⟩
  · rintro ⟨m, hm, rfl, hhost⟩
    exact ⟨m, ⟨hm, hhost⟩, rfl⟩

theorem Named.stageRebuild {db : Db} (h : Named db) {old : List Host}
    (hin : RebuildInputs db members old) : Mirrored (stageRebuild members old db) := by
  have hmember : ∀ ns host, (∃ m ∈ members, m.1 = ns ∧ host ∈ m.2 ∧ host ≠ "") ↔
      host ∈ db.hosts ns := by
    intro ns host
    constructor
    · rintro ⟨m, hm, rfl, hhost, -⟩
      exact hin.stored m hm ▸ hhost
    · exact fun hhost => ⟨_, hin.complete ns ⟨host, hhost⟩, rfl, hhost, (h ns host hhost).2⟩
  have hdeclarations : ∀ host ns,
      ns ∈ (Control.stageRebuild members old db).hostDeclarations host ↔ host ∈ db.hosts ns := by
    intro host ns
    rw [Control.stageRebuild, Finset.mem_union, mem_declarationsByHost, hmember,
      or_iff_right_iff_imp]
    -- what is left of the old index is what is added
    rcases hin.old with hold | hmirrored
    · split
      next => exact fun hns => absurd hns (Finset.notMem_empty ns)
      next hnot => exact fun hns => absurd (hold host ⟨ns, hns⟩) hnot
    · split
      next => exact fun hns => absurd hns (Finset.notMem_empty ns)
      next => exact (hmirrored.declarations host ns).1
  refine ⟨hdeclarations, fun host => ?_, h⟩
  have hdeclared : host ∈ (Control.stageRebuild members old db).declaredHosts ↔
      ∃ m ∈ members, host ∈ m.2 ∧ host ≠ "" := mem_declaredBy
  rw [hdeclared]
  constructor
  · rintro ⟨m, hm, hhost⟩
    exact ⟨m.1, (hdeclarations host m.1).2 ((hmember m.1 host).1 ⟨m, hm, rfl, hhost⟩)⟩
  · rintro ⟨ns, hns⟩
    obtain ⟨m, hm, -, hhost⟩ := (hmember ns host).2 ((hdeclarations host ns).1 hns)
    exact ⟨m, hm, hhost⟩

/-! ## What the processes rely on -/

/-- How the database moves. The declarations do not change without the revision, and the index by
    host only when a rebuild has brought it in line. -/
structure Advances (a b : Db × ℕ) : Prop where
  revision : a.2 ≤ b.2
  hosts : a.2 = b.2 → b.1.hosts = a.1.hosts
  declarations : a.2 = b.2 → b.1.hostDeclarations = a.1.hostDeclarations ∨ Mirrored b.1
  named : Named a.1 → Named b.1
  mirrored : Mirrored a.1 → Mirrored b.1

theorem Advances.refl (s : Db × ℕ) : Advances s s :=
  ⟨le_rfl, fun _ => rfl, fun _ => .inl rfl, id, id⟩

theorem Advances.trans (a b c : Db × ℕ) (h : Advances a b) (h' : Advances b c) : Advances a c := by
  have hrevision : a.2 = c.2 → a.2 = b.2 ∧ b.2 = c.2 := by
    have hab := h.revision
    have hbc := h'.revision
    omega
  refine ⟨h.revision.trans h'.revision, fun heq => ?_, fun heq => ?_, h'.named ∘ h.named,
    h'.mirrored ∘ h.mirrored⟩
  · obtain ⟨hab, hbc⟩ := hrevision heq
    rw [h'.hosts hbc, h.hosts hab]
  · obtain ⟨hab, hbc⟩ := hrevision heq
    rcases h'.declarations hbc with hsame | hmirrored
    · rcases h.declarations hab with hsame' | hmirrored'
      · exact .inl (hsame.trans hsame')
      · exact .inr (h'.mirrored hmirrored')
    · exact .inr hmirrored

variable {s : Db × ℕ}

/-- The database when a rebuild commits, and what it has seen before: the same declarations. -/
theorem Advances.hosts_of_seen {d : Db × ℕ} {W : Set revisedKeyed.Key} (hW : none ∈ W)
    (hd : Seen revisedKeyed A Advances s W d) : d.1.hosts = s.1.hosts := by
  have hrevision : d.2 = s.2 := hd.same none hW
  exact (hd.later.hosts hrevision).symm

theorem ensures_scanKeys {W : Set revisedKeyed.Key} (part : Option Key → Option String)
    (maxEntries : ℕ) :
    Ensures (K := revisedKeyed) A Advances s W (scanKeys part maxEntries)
      fun W' keys => W' = W ∧ ∀ k x, part k = some x →
        (∀ d, Seen revisedKeyed A Advances s W d → revisedKeyed.Present d k) → x ∈ keys := by
  intro found hfound
  show Ensures _ _ _ _ (if _ then _ else _) _
  split
  · trivial
  · refine ⟨rfl, fun k x hk hpresent => ?_⟩
    have hmem : k ∈ found := hfound k (Option.isSome_iff_exists.2 ⟨x, hk⟩) hpresent
    exact mem_eraseDups.2 (mem_filterMap.2 ⟨k, hmem, hk⟩)

theorem ensures_readHosts {γ : Type} {W : Set revisedKeyed.Key} (hW : none ∈ W) {l : List Ns}
    {F : Ns → Finset Host → γ} {f : List γ → RebuildM (Verdict (Db × ℕ) Reply)}
    {Q : Set revisedKeyed.Key → Verdict (Db × ℕ) Reply → Prop}
    (hf : Ensures (K := revisedKeyed) A Advances s W (f (l.map fun ns => F ns (s.1.hosts ns))) Q) :
    Ensures (K := revisedKeyed) A Advances s W
      ((Prog.forEach l fun ns => (readHosts ns).bind fun hosts => .ret (F ns hosts)).bind f) Q := by
  refine Ensures.forEach_map (fun ns _ d hd => ⟨rfl, ?_⟩) hf
  show F ns (d.1.hosts ns) = _
  rw [Advances.hosts_of_seen hW hd]

/-- A rebuild commits what follows from the declarations. -/
theorem ensures_rebuildSession (hA : ∀ s, A s → Named s.1) (hs : A s) :
    Ensures (K := revisedKeyed) A Advances s ∅ rebuildSession fun _ r => ∀ m a,
      r = .commit m a → ∃ members old, m = (fun s => (stageRebuild members old s.1, s.2)) ∧
        RebuildInputs s.1 members old := by
  have hW : (none : revisedKeyed.Key) ∈ (∅ ∪ {k | k ∈ [none]} : Set revisedKeyed.Key) :=
    .inr mem_cons_self
  refine .seq (P := fun W _ => W = ∅ ∪ {k | k ∈ [none]}) (by rfl) ?_
  rintro W - rfl
  refine .seq (ensures_scanKeys namespaceFromHostsKey _) ?_
  rintro W hostKeys ⟨rfl, hscopes⟩
  refine Ensures.seq (ensures_scanKeys hostFromDeclarationsKey _) ?_
  rintro W old ⟨rfl, hold⟩
  refine ensures_readHosts hW (F := fun _ hosts => hosts.card) ?_
  show Ensures _ _ _ _ (if _ then _ else _) _
  split
  · trivial
  · refine ensures_readHosts hW (F := fun ns hosts => (ns, hosts)) fun m a heq => ?_
    cases heq
    refine ⟨_, old, rfl, ?_, fun ns hne => ?_, ?_⟩
    · intro m hm
      obtain ⟨ns, -, rfl⟩ := mem_map.1 hm
      rfl
    · have hscope : ns ∈ hostKeys := hscopes (some (.hosts ns)) ns rfl fun d hd => by
        show (d.1.hosts ns).Nonempty
        rwa [Advances.hosts_of_seen hW hd]
      obtain ⟨host, hhost⟩ := hne
      refine mem_map.2 ⟨ns, mem_filter.2 ⟨hscope, ?_⟩, rfl⟩
      exact decide_eq_true (hA s hs ns host hhost).1
    · by_cases hmirrored : Mirrored s.1
      · exact .inr hmirrored
      · refine .inl fun host hne => hold (some (.hostDeclarations host)) host rfl fun d hd => ?_
        have hsame := (hd.later.declarations (hd.same none hW)).resolve_right hmirrored
        show (d.1.hostDeclarations host).Nonempty
        rwa [← hsame]

/-! ## Runs -/

/-- What a process does to the database. -/
inductive HostsChange : HostsKind → Db × ℕ → Db × ℕ → Prop
  | stay (k : HostsKind) (s : Db × ℕ) : HostsChange k s s
  | reconcile {ns : Ns} {hosts : Finset Host} {m : Db → Db} {s : Db × ℕ} (hns : ns ≠ "")
      (hhosts : "" ∉ hosts) (hm : ReconcileCommit s.1 ns hosts m) :
      HostsChange (.reconcile ns hosts) s (m s.1, s.2 + 1)
  | rebuild {s : Db × ℕ} {members : List (Ns × Finset Host)} {old : List Host}
      (hin : RebuildInputs s.1 members old) :
      HostsChange .rebuild s (stageRebuild members old s.1, s.2)

theorem HostsChange.advances {k : HostsKind} {t : Db × ℕ} (h : HostsChange k s t) (hs : Named s.1) :
    Advances s t := by
  cases h with
  | stay => exact .refl s
  | reconcile hns hhosts hm =>
    have hne : s.2 ≠ s.2 + 1 := by omega
    exact ⟨Nat.le_succ _, fun heq => absurd heq hne, fun heq => absurd heq hne,
      fun hnamed => hnamed.reconcile hns hhosts hm, fun h => h.reconcile hns hhosts hm⟩
  | rebuild hin =>
    have hmirrored := hs.stageRebuild hin
    exact ⟨le_rfl, fun _ => rfl, fun _ => .inr hmirrored, fun _ => hmirrored.named,
      fun _ => hmirrored⟩

theorem HostsChange.of_rebuild {t : Db × ℕ} (h : HostsChange .rebuild s t)
    (hs : Named s.1) : t = s ∨ Mirrored t.1 := by
  cases h with
  | stay => exact .inl rfl
  | rebuild hin => exact .inr (hs.stageRebuild hin)

/-- A session that ensures what its process may change, run as one of the processes. -/
theorem HostsChange.safe (i : ℕ) (k : HostsKind) {body : RebuildM (Verdict (Db × ℕ) Reply)}
    (hbody : ∀ s : Db × ℕ, Named s.1 → Ensures (K := revisedKeyed) (fun s => Named s.1) Advances s ∅
      body fun _ r => ∀ m a, r = .commit m a → HostsChange k s (m s)) (e : Failure) (n : ℕ)
    {s : Shared revisedKeyed} (hs : Named s.db.1) :
    (runOptimistic i body (.fail e) n : Prog hostsApi Failure Reply).Safe hostsSystem.call
      (Shared.Moves i Advances) (Shared.Guar i (HostsChange k)) (fun _ _ => True) s := by
  have hcall : hostsSystem.call = Request.Step noCommand := rfl
  refine (runOptimistic_safe (A := fun s => Named s.1) (B := fun _ s => Named s.1)
    (E := fun _ _ => True) (Q := fun s _ r => ∀ m a, r = .commit m a → HostsChange k s (m s))
    Advances.refl Advances.trans (.stay k) (fun a b h hab => hab.named h)
    (fun _ a b h hab => hab.named h)
    (fun _ _ h _ => h) (fun db W m a h hQ => ?_) (fun _ _ _ => trivial) hbody ?_ n s hs).mono
    fun _ _ _ => trivial
  · have hchange := hQ m a rfl
    exact ⟨hchange, (hchange.advances h).named h⟩
  · exact .fail (fun s t h hst => hst.db.named h) fun _ _ => trivial

theorem hostsSystem_safe (i : ℕ) (k : HostsKind) {s : Shared revisedKeyed} (hs : Named s.db.1) :
    (hostsSystem.body i k).Safe hostsSystem.call (Shared.Moves i Advances)
      (Shared.Guar i (HostsChange k)) (fun _ _ => True) s := by
  cases k with
  | reconcile ns hosts =>
    show (reconcileHostsRevised i ns hosts).Safe _ _ _ _ _
    rw [reconcileHostsRevised]
    split
    next => exact fun _ _ => trivial
    next hvalid =>
      obtain ⟨hns, hhosts⟩ := not_or.1 hvalid
      refine HostsChange.safe i _ (fun s _ => (ensures_reconcile ns hosts s).mono ?_) _ _ hs
      intro W r hr m a heq
      obtain ⟨m', hm, rfl⟩ := hr m a heq
      exact .reconcile hns hhosts hm
  | rebuild =>
    refine HostsChange.safe i _
      (fun s hs => (ensures_rebuildSession (fun _ h => h) hs).mono ?_) _ _ hs
    intro W r hr m a heq
    obtain ⟨members, old, rfl, hin⟩ := hr m a heq
    exact .rebuild hin

/-- The rely-guarantee proof. -/
def hostsRelyGuarantee {init : Shared revisedKeyed → Prop} (hinit : ∀ s, init s → Named s.db.1) :
    System.RelyGuarantee hostsSystem init fun _ _ => True where
  inv s := Named s.db.1
  rely i _ := Shared.Moves i Advances
  guar i k := Shared.Guar i (HostsChange k)
  compat _ _ _ _ := True
  inv_init := hinit
  rely_refl _ _ := Shared.Moves.refl Advances.refl
  rely_trans _ _ _ _ _ := Shared.Moves.trans Advances.trans
  guar_inv _ _ _ _ h hg := (hg.db.advances h).named h
  guar_rely _ _ _ _ _ _ hne _ h hg := hg.moves Advances.refl (Ne.symm hne) (hg.db.advances h)
  env_inv _ e _ _ _ _ := e.elim
  env_rely _ e _ _ _ _ _ _ := e.elim
  spawn_compat _ _ _ _ _ _ _ _ _ _ := ⟨trivial, trivial⟩
  spawn_safe _ i k _ h _ _ := hostsSystem_safe i k h

/-! ## Overlapping rebuilds -/

/-- By how much the commits of a process increment the revision. -/
def HostsKind.increment : HostsKind → ℕ
  | .reconcile _ _ => 1
  | .rebuild => 0

/-- A request does not write, or its writes increment the revision by `n`. -/
def Increments (n : ℕ) : Request revisedKeyed noCommands → Prop
  | .exec _ m => ∀ s, (m s).2 = s.2 + n
  | .command _ => False
  | _ => True

theorem Increments.of_quiet {n : ℕ} {q : Request revisedKeyed noCommands} (h : q.Quiet) :
    Increments n q := by
  cases q with
  | exec | command => exact h.elim
  | connect | watch | read | scanStart | scanEnd => trivial

theorem Increments.revision {n : ℕ} {q : Request revisedKeyed noCommands} (h : Increments n q)
    {s t : Shared revisedKeyed} {x : hostsApi.Ans q} (hst : Request.Step noCommand q s x t) :
    s.db.2 ≤ t.db.2 := by
  cases q with
  | exec i m =>
    rcases hst with ⟨-, -, rfl⟩ | ⟨-, -, rfl⟩
    · exact (Nat.le_add_right _ _).trans_eq (h s.db).symm
    · exact le_rfl
  | command c => exact h.elim
  | connect | watch => obtain rfl : t = _ := hst; exact le_rfl
  | read k => obtain ⟨-, rfl⟩ := hst; exact le_rfl
  | scanStart i => obtain rfl : t = _ := hst; exact le_rfl
  | scanEnd i p => obtain ⟨-, rfl⟩ := hst; exact le_rfl

theorem commitsOnly_rebuildSession :
    rebuildSession.CommitsOnly fun m => ∀ s, (m s).2 = s.2 := by
  refine .bind _ fun _ => .bind _ fun hostKeys => .bind _ fun old =>
    CommitsOnly.bind (.forEach _ _) fun counts => ?_
  show CommitsOnly _ (if _ then _ else _)
  split
  · trivial
  · exact .bind (.forEach _ _) fun members s => rfl

theorem hostsSystem_increments (i : ℕ) (k : HostsKind) :
    (hostsSystem.body i k).Emits (fun _ _ => True) (Increments k.increment) := by
  cases k with
  | reconcile ns hosts =>
    show (reconcileHostsRevised i ns hosts).Emits _ _
    rw [reconcileHostsRevised]
    split
    · trivial
    · refine CommitsOnly.runOptimistic_emits (fun q hq => .of_quiet hq)
        (Session.commitsOnly_revise (K := keyed) hostPresent _) ?_ _
      trivial
  | rebuild =>
    refine CommitsOnly.runOptimistic_emits
      (fun q hq => .of_quiet hq) commitsOnly_rebuildSession ?_ _
    trivial

theorem hostsSystem_on (i : ℕ) (k : HostsKind) :
    (hostsSystem.body i k).Emits (fun _ _ => True) (Request.On i) := by
  cases k with
  | reconcile ns hosts =>
    show (reconcileHostsRevised i ns hosts).Emits _ _
    rw [reconcileHostsRevised]
    split
    · trivial
    · refine runOptimistic_emits_on i _ ?_ _
      trivial
  | rebuild =>
    refine runOptimistic_emits_on i _ ?_ _
    trivial

variable {w w' : HostsWorld}

section Runs

variable {init : Shared revisedKeyed → Prop}

theorem mirrored_of_reachable (hinit : ∀ s, init s → Mirrored s.db.1)
    (h : hostsSystem.Reachable init w) : Mirrored w.store.db.1 := by
  refine (hostsRelyGuarantee fun s hs => (hinit s hs).named).store_invariant
    (J := fun s => Mirrored s.db.1) hinit ?_ ?_ h
  · exact fun i k s t hnamed hs hg => (hg.db.advances hnamed).mirrored hs
  · exact fun w e t _ _ _ he => e.elim

/-- A rebuild brings the indexes in line, whatever they have been before. -/
theorem mirrored_of_rebuild (hinit : ∀ s, init s → Named s.db.1) (h : hostsSystem.Reachable init w)
    {i : ℕ} {q : hostsApi.Call} {x : hostsApi.Ans q} (hs : hostsSystem.Step w (.call i q x) w')
    {p : Process hostsApi HostsKind Failure Reply} (hp : w.proc i = some p)
    (hkind : p.kind = .rebuild) :
    w'.store.db = w.store.db ∨ Mirrored w'.store.db.1 := by
  cases hs with
  | @call _ k _ next _ s hi hc =>
    cases hi.symm.trans hp
    obtain rfl : k = .rebuild := hkind
    have hguar := (hostsRelyGuarantee hinit).call_guar h hi hc
    exact hguar.db.of_rebuild ((hostsRelyGuarantee hinit).holds h).inv

/-- The process `i` goes on with its attempt. -/
def WithinAttempt (i : ℕ) (_ : HostsWorld) (l : Label hostsApi HostsKind Empty) : Prop :=
  ∀ q x, l = .call i q x → q.Within

/-- The rebuild `i` has begun an attempt by watching the revision, and before the end of this
    attempt a reconcile has committed. -/
inductive Overlapped (init : Shared revisedKeyed → Prop) (i : ℕ) : HostsWorld → Prop
  | intro {w₀ w₁ w₂ w₃ w : HostsWorld} (hw₀ : hostsSystem.Reachable init w₀)
      (hwatch : hostsSystem.Step w₀ (.call i (.watch i [none]) ()) w₁)
      (hbefore : hostsSystem.StepsWhen (WithinAttempt i) w₁ w₂)
      {j : ℕ} (hj : j ≠ i) {p : Process hostsApi HostsKind Failure Reply} (hp : w₂.proc j = some p)
      {ns : Ns} {hosts : Finset Host} (hkind : p.kind = .reconcile ns hosts) {m : Db × ℕ → Db × ℕ}
      (hcommit : hostsSystem.Step w₂ (.call j (.exec j m) true) w₃)
      (hafter : hostsSystem.StepsWhen (WithinAttempt i) w₃ w) : Overlapped init i w

section

variable (h : hostsSystem.Reachable init w)

include h

/-- The connection of a process that goes on with its attempt keeps its guard. -/
theorem guards_of_step {i : ℕ}
    {l : Label hostsApi HostsKind Empty} (hl : WithinAttempt i w l) (hs : hostsSystem.Step w l w')
    {v : ℕ} (hguards : w.store.Guards i none v) : w'.store.Guards i none v := by
  cases hs with
  | spawn j k hj => exact hguards
  | @call j k c next x s hj hc =>
    have hon : c.On j := (h.emits (fun _ _ _ _ _ => trivial) hostsSystem_on hj).1
    have hstep : Request.Step noCommand c w.store x s := hc
    by_cases hji : j = i
    · subst hji
      exact hguards.of_within hon (hl c x rfl) hstep
    · exact hguards.of_sees (hon.sees (.symm hji) hstep)
  | stop j hj => exact hguards
  | env e he => exact e.elim

theorem revision_le_of_step {l : Label hostsApi HostsKind Empty}
    (hs : hostsSystem.Step w l w') :
    w.store.db.2 ≤ w'.store.db.2 := by
  cases hs with
  | spawn j k hj => exact le_rfl
  | @call j k c next x s hj hc =>
    have hincr : Increments k.increment c :=
      (h.emits (fun _ _ _ _ _ => trivial) hostsSystem_increments hj).1
    exact hincr.revision hc
  | stop j hj => exact le_rfl
  | env e he => exact e.elim

/-- The guard is kept, and the revision grows, during the attempt. -/
theorem guards_of_steps {i v : ℕ}
    (hguards : w.store.Guards i none v) (hs : hostsSystem.StepsWhen (WithinAttempt i) w w') :
    hostsSystem.Reachable init w' ∧ w'.store.Guards i none v ∧ w.store.db.2 ≤ w'.store.db.2 := by
  induction hs with
  | refl => exact ⟨h, hguards, le_rfl⟩
  | step _ hok hs ih =>
    obtain ⟨hw, hg, hle⟩ := ih
    exact ⟨hw.step trivial hs, guards_of_step hw hok hs hg, hle.trans (revision_le_of_step hw hs)⟩

/-- The commit of a reconcile increments the revision. -/
theorem revision_lt_of_reconcile {j : ℕ}
    {p : Process hostsApi HostsKind Failure Reply} (hp : w.proc j = some p) {ns : Ns}
    {hosts : Finset Host} (hkind : p.kind = .reconcile ns hosts) {m : Db × ℕ → Db × ℕ}
    (hs : hostsSystem.Step w (.call j (.exec j m) true) w') : w.store.db.2 < w'.store.db.2 := by
  cases hs with
  | @call _ k _ next _ s hj hc =>
    cases hj.symm.trans hp
    obtain rfl : k = .reconcile ns hosts := hkind
    have hincr : Increments 1 (.exec j m) :=
      (h.emits (fun _ _ _ _ _ => trivial) hostsSystem_increments hj).1
    rcases hc with ⟨-, -, rfl⟩ | ⟨-, hok, -⟩
    · exact (Nat.lt_succ_self _).trans_eq (hincr w.store.db).symm
    · cases hok

end

theorem Overlapped.guards {i : ℕ} (h : Overlapped init i w) :
    hostsSystem.Reachable init w ∧ ∃ v, w.store.Guards i none v ∧ v < w.store.db.2 := by
  obtain ⟨hw₀, hwatch, hbefore, hj, hp, hkind, hcommit, hafter⟩ := h
  rename_i w₀ w₁ w₂ w₃ j p ns hosts m
  have hw₁ : hostsSystem.Reachable init w₁ := hw₀.step trivial hwatch
  have hguards : w₁.store.Guards i none w₁.store.db.2 := by
    cases hwatch with
    | @call _ k _ next _ s hi hc =>
      obtain rfl : s = _ := hc
      exact ⟨by simp, fun _ => rfl⟩
  obtain ⟨hw₂, hguards₂, hle₂⟩ := guards_of_steps hw₁ hguards hbefore
  have hother : WithinAttempt i w₂ (.call j (.exec j m) true) := by
    intro q x heq
    exact absurd (Label.call.inj heq).1 hj
  have hw₃ : hostsSystem.Reachable init w₃ := hw₂.step trivial hcommit
  have hguards₃ := guards_of_step hw₂ hother hcommit hguards₂
  have hlt := revision_lt_of_reconcile hw₂ hp hkind hcommit
  obtain ⟨hw, hguards', hle⟩ := guards_of_steps hw₃ hguards₃ hafter
  exact ⟨hw, _, hguards', hle₂.trans_lt (hlt.trans_le hle)⟩

/-- The commit of a rebuild is refused if a reconcile has committed since it watched the
    revision. -/
theorem exec_refused_of_overlapped {i : ℕ} (h : Overlapped init i w) {m : Db × ℕ → Db × ℕ}
    {ok : Bool} (hs : hostsSystem.Step w (.call i (.exec i m) ok) w') :
    ok = false ∧ w'.store.db = w.store.db := by
  obtain ⟨-, v, hguards, hlt⟩ := h.guards
  cases hs with
  | @call _ k _ next _ s hi hc =>
    have hstep : Request.Step noCommand (.exec i m) w.store ok s := hc
    exact hguards.exec_refused hlt.ne' hstep

end Runs

/-- **The indexes mirror the declarations**, in every world that reconciles and rebuilds lead to. A
    rebuild during which a reconcile has committed is not committed. -/
theorem declared_host_indexes_mirror {init : Shared revisedKeyed → Prop}
    (hinit : ∀ s, init s → Mirrored s.db.1) :
    (∀ w, hostsSystem.Reachable init w → Mirrored w.store.db.1) ∧
      ∀ i w w' m ok, Overlapped init i w → hostsSystem.Step w (.call i (.exec i m) ok) w' →
        ok = false ∧ w'.store.db = w.store.db :=
  ⟨fun _ h => mirrored_of_reachable hinit h,
    fun _ _ _ _ _ h hs => exec_refused_of_overlapped h hs⟩

/-- A namespace has declared a host that the indexes miss. -/
def unindexedDb : Db :=
  { Db.empty with hosts := update Db.empty.hosts "acme" {"shop.example"}, declaredHosts := {"old"} }

/-- The indexes mirror the declaration. -/
def indexedDb : Db :=
  { unindexedDb with
    hostDeclarations := update Db.empty.hostDeclarations "shop.example" {"acme"}
    declaredHosts := {"shop.example"} }

theorem mem_hosts_unindexedDb {ns : Ns} {host : Host} :
    host ∈ unindexedDb.hosts ns ↔ ns = "acme" ∧ host = "shop.example" := by
  simp only [unindexedDb, Db.empty, update_apply]
  grind only [Finset.mem_singleton, Finset.notMem_empty]

theorem mem_hostDeclarations_indexedDb {ns : Ns} {host : Host} :
    ns ∈ indexedDb.hostDeclarations host ↔ ns = "acme" ∧ host = "shop.example" := by
  simp only [indexedDb, Db.empty, update_apply]
  grind only [Finset.mem_singleton, Finset.notMem_empty]

theorem named_unindexedDb : Named unindexedDb := by
  rintro ns host h
  obtain ⟨rfl, rfl⟩ := mem_hosts_unindexedDb.1 h
  decide

theorem mirrored_indexedDb : Mirrored indexedDb where
  declarations _ _ := mem_hostDeclarations_indexedDb.trans mem_hosts_unindexedDb.symm
  declared host := by
    simp only [Finset.Nonempty, mem_hostDeclarations_indexedDb, exists_eq_left]
    exact Finset.mem_singleton
  named := named_unindexedDb

theorem scan_namespaces (db : Db) (hdb : db.hosts = unindexedDb.hosts) {v : ℕ} {k : Option Key}
    (h : revisedKeyed.Present (db, v) k) (hk : (namespaceFromHostsKey k).isSome) :
    k ∈ [some (.hosts "acme")] := by
  match k, h with
  | some (.hosts ns), ⟨host, hhost⟩ =>
    obtain ⟨rfl, -⟩ := mem_hosts_unindexedDb.1 (hdb ▸ hhost)
    exact .head _

theorem scan_hosts {v : ℕ} {k : Option Key} (h : revisedKeyed.Present (indexedDb, v) k)
    (hk : (hostFromDeclarationsKey k).isSome) : k ∈ [some (.hostDeclarations "shop.example")] := by
  match k, h with
  | some (.hostDeclarations host), ⟨ns, hns⟩ =>
    obtain ⟨-, rfl⟩ := mem_hostDeclarations_indexedDb.1 hns
    exact .head _

/-- A reconcile commits during a rebuild, whose `EXEC` is refused. -/
theorem declared_host_indexes_mirror_overlapped : Mirrored indexedDb ∧
    ∃ w w' m, Overlapped (fun s => s.db = (indexedDb, 0)) 0 w ∧
      hostsSystem.Step w (.call 0 (.exec 0 m) false) w' ∧ w'.store.db = w.store.db ∧
      "blog.example" ∈ w'.store.db.1.hosts "beta" ∧ Mirrored w'.store.db.1 := by
  have hinit (s : Shared revisedKeyed) (hs : s.db = (indexedDb, 0)) : Mirrored s.db.1 :=
    hs ▸ mirrored_indexedDb
  -- The reconcile goes up to its commit.
  let start : Shared revisedKeyed := ⟨(indexedDb, 0), fun _ => .fresh⟩
  let m (s : Db × ℕ) : Db × ℕ := (stageDeclaredHostChanges "beta" {"blog.example"} [] s.1, s.2 + 1)
  obtain ⟨conn, next, hruns, hclean⟩ : ∃ conn next,
      (hostsSystem.body 1 (.reconcile "beta" {"blog.example"})).Runs hostsSystem.call start
        (.call (.exec 1 m) next) ⟨(indexedDb, 0), conn⟩ ∧ ¬ (conn 1).dirty := by
    with_unfolding_all exact ⟨_, _, .call (x := ()) rfl <| .call (x := ()) rfl <|
      .call ⟨rfl, rfl⟩ <| .call (x := ()) rfl <| .call (x := ()) rfl <| .call ⟨rfl, rfl⟩ .refl, id⟩
  let s : Shared revisedKeyed := ⟨(indexedDb, 0), conn⟩
  let w : HostsWorld := World.setProc ⟨s, fun _ => none⟩ 1
    ⟨.reconcile "beta" {"blog.example"}, .call (.exec 1 m) next, true⟩
  have hw : hostsSystem.Reachable (fun s => s.db = (indexedDb, 0)) w :=
    System.ReachableWhen.steps (.init (s := start) rfl)
      (.start (fun _ _ _ _ => trivial) .refl rfl trivial hruns)
  -- The rebuild watches the revision, scans and reads.
  let m' (s : Db × ℕ) : Db × ℕ :=
    (stageRebuild [("acme", {"shop.example"})] ["shop.example"] s.1, s.2)
  obtain ⟨s₁, rest, u, next', hconnect, hwatch, hrest, hdb, hclean', hwatched⟩ :
      ∃ s₁ rest u next',
        (hostsSystem.body 0 .rebuild).Runs hostsSystem.call s (.call (.watch 0 [none]) rest)
          (s.setConn 0 .fresh) ∧
        hostsSystem.call (.watch 0 [none]) (s.setConn 0 .fresh) () s₁ ∧
        (rest ()).Runs (fun c s x t => hostsSystem.call c s x t ∧ c.Within) s₁
          (.call (.exec 0 m') next') u ∧
        u.db = (indexedDb, 0) ∧ ¬ (u.conn 1).dirty ∧ none ∈ (u.conn 0).watched := by
    refine ⟨_, _, _, _, .call (x := ()) rfl .refl, rfl, .call (x := ()) ⟨rfl, trivial⟩ <|
      .call ⟨⟨fun _ => scan_namespaces indexedDb rfl, rfl⟩, trivial⟩ <|
      .call (x := ()) ⟨rfl, trivial⟩ <|
      .call ⟨⟨fun _ => scan_hosts, rfl⟩, trivial⟩ <| .call ⟨⟨rfl, rfl⟩, trivial⟩ <|
      .call ⟨⟨rfl, rfl⟩, trivial⟩ .refl, rfl, hclean, ?_⟩
    exact .inr (.head _)
  let w₀ : HostsWorld := World.setProc ⟨s.setConn 0 .fresh, w.proc⟩ 0
    ⟨.rebuild, .call (.watch 0 [none]) rest, true⟩
  have hw₀ : hostsSystem.Reachable (fun s => s.db = (indexedDb, 0)) w₀ :=
    System.ReachableWhen.steps hw (.start (fun _ _ _ _ => trivial) .refl rfl trivial hconnect)
  have hstep : hostsSystem.Step w₀ (.call 0 (.watch 0 [none]) ()) _ := .call 0 rfl hwatch
  have hbefore : hostsSystem.StepsWhen (WithinAttempt 0) _ _ :=
    System.StepsWhen.runs_when (k := .rebuild) (f := w₀.proc)
      (fun _ c x t _ h => ⟨h.1, fun q y heq => by cases heq; exact h.2⟩) hrest .refl
  -- The reconcile commits, and the rebuild does not.
  obtain ⟨w₃, hover, hproc, hdirty, hadded⟩ : ∃ w, Overlapped (fun s => s.db = (indexedDb, 0)) 0 w ∧
      w.proc 0 = some ⟨.rebuild, .call (.exec 0 m') next', true⟩ ∧ (w.store.conn 0).dirty ∧
      w.store.db = m u.db :=
    ⟨_, .intro hw₀ hstep hbefore Nat.one_ne_zero rfl rfl
      (.call 1 rfl (.inl ⟨hclean', rfl, rfl⟩)) .refl, rfl,
      Or.inr ⟨none, hwatched, Nat.succ_ne_self _⟩, rfl⟩
  have hexec : hostsSystem.Step w₃ (.call 0 (.exec 0 m') false) _ :=
    .call 0 hproc (.inr ⟨hdirty, rfl, rfl⟩)
  have hrefused := (declared_host_indexes_mirror hinit).2 0 _ _ m' false hover hexec
  refine ⟨mirrored_indexedDb, _, _, m', hover, hexec, hrefused.2, ?_,
    (declared_host_indexes_mirror hinit).1 _ (hover.guards.1.step trivial hexec)⟩
  rw [hrefused.2, hadded, hdb]
  decide +kernel

/-- A rebuild adds the host to the indexes, and forgets another one that nobody has declared. -/
theorem mirrored_of_rebuild_stale : ∃ w w' m, hostsSystem.Step w (.call 0 (.exec 0 m) true) w' ∧
    w.store.db.1 = unindexedDb ∧ "acme" ∈ w'.store.db.1.hostDeclarations "shop.example" ∧
    Mirrored w'.store.db.1 := by
  let start : Shared revisedKeyed := ⟨(unindexedDb, 0), fun _ => .fresh⟩
  let m (s : Db × ℕ) : Db × ℕ := (stageRebuild [("acme", {"shop.example"})] [] s.1, s.2)
  have hnone (k : Option Key) (h : revisedKeyed.Present (unindexedDb, 0) k)
      (hk : (hostFromDeclarationsKey k).isSome) : k ∈ [] := by
    match k, h with
    | some (.hostDeclarations host), ⟨ns, hns⟩ => cases Finset.notMem_empty ns hns
  obtain ⟨t, next, hruns, hdb, hclean⟩ : ∃ t next,
      (hostsSystem.body 0 .rebuild).Runs hostsSystem.call start (.call (.exec 0 m) next) t ∧
      t.db = (unindexedDb, 0) ∧ ¬ (t.conn 0).dirty :=
    ⟨_, _, .call (x := ()) rfl <| .call (x := ()) rfl <| .call (x := ()) rfl <|
      .call ⟨fun _ => scan_namespaces unindexedDb rfl, rfl⟩ <| .call (x := ()) rfl <|
      .call ⟨hnone, rfl⟩ <| .call ⟨rfl, rfl⟩ <| .call ⟨rfl, rfl⟩ .refl, rfl, id⟩
  let w : HostsWorld := World.setProc ⟨t, fun _ => none⟩ 0 ⟨.rebuild, .call (.exec 0 m) next, true⟩
  have hw : hostsSystem.Reachable (Eq start) w := System.ReachableWhen.steps (.init rfl)
    (.start (fun _ _ _ _ => trivial) .refl rfl trivial hruns)
  have hp : w.proc 0 = _ := World.setProc_proc_self ..
  have hs : hostsSystem.Step w (.call 0 (.exec 0 m) true) _ := .call 0 hp (.inl ⟨hclean, rfl, rfl⟩)
  have hadded : "acme" ∈ (m t.db).1.hostDeclarations "shop.example" := by
    rw [hdb]
    decide +kernel
  refine ⟨w, _, m, hs, congrArg Prod.fst hdb, hadded,
    (mirrored_of_rebuild ?_ hw hs hp rfl).resolve_left fun heq => ?_⟩
  · rintro _ rfl
    exact named_unindexedDb
  · have hsame : m t.db = t.db := heq
    rw [hsame, hdb] at hadded
    cases Finset.notMem_empty _ hadded

end Wdl.Control
