import Wdl.Control.Hosts
import Wdl.Control.Runs

/-!
# The control plane stays coherent

All invariants of the database together (`Coherent`) are kept by every transaction of a process
that relies on them, and on what the others do not undo: what was issued stays issued
(`Later`), and the numbers that the process was given stay its own (`Held`). So the database
is coherent in every world that is reached from an empty one (`coherent_of_reachable`).
-/

namespace Wdl.Control

/-- All invariants of the database. -/
structure Coherent (db : Db) : Prop where
  numbered : Numbered db
  indexed : Indexed db
  admitted : AllAdmitted db
  referenced : Referenced db
  projected : Projected db
  hosts : HostsCoherent db
  crons : CronsActive db

theorem Coherent.empty : Coherent Db.empty where
  numbered :=
    ⟨fun _ _ h => absurd h (by simp [Db.empty]), fun _ _ h => absurd h (by simp [Db.empty]),
    fun _ _ h => absurd h (by simp [Db.empty])⟩
  indexed := ⟨fun _ _ => by simp [Db.empty], fun _ _ h => absurd h (by simp [Db.empty, Db.active]),
    fun _ => by simp [Db.empty, Occupied], fun _ => by simp [Db.empty]⟩
  admitted _ _ h := absurd h (by simp [Db.empty])
  referenced :=
    ⟨fun _ _ h => absurd h (by simp [Db.empty]), fun _ _ h => absurd h (by simp [Db.empty]),
    fun _ _ h => absurd h (by simp [Db.empty]), fun _ _ h => absurd h (by simp [Db.empty]),
    fun _ _ _ h => absurd h (by simp [Db.empty]), fun _ _ h => absurd h (by simp [Db.empty])⟩
  projected := by
    have hnone : ∀ w, Db.empty.activeBundle w = none := fun w => Db.activeBundle_eq_none rfl
    refine ⟨fun k v => ?_, fun k v => ?_⟩
    · rw [slotsOf_eq_nil (hnone _)]
      simp [Db.slotAt, Db.empty]
    · rw [queuesOf_eq_nil (hnone _)]
      simp [Db.consumerOf, Db.empty]
  hosts := ⟨fun _ _ h => absurd h (by simp [Db.slotAt, Db.empty]),
    fun _ _ _ _ _ h => absurd h (by simp [Db.slotAt, Db.empty]),
    fun _ _ => by simp [Db.slotAt, Db.empty]⟩
  crons _ _ h := absurd h (by simp [Db.empty])

/-- Only numbers and locks change. -/
theorem Coherent.frame {db : Db} (h : Coherent db) {nextVersion : WorkerId → ℕ}
    {holder : VersionId → Option ℕ} {deleteLock : WorkerId → Option LockToken}
    {nsSecrets : Ns → Hash String String}
    (hn : Numbered { db with nextVersion, holder, deleteLock, nsSecrets }) :
    Coherent { db with nextVersion, holder, deleteLock, nsSecrets } where
  numbered := hn
  indexed := h.indexed.of_eq rfl rfl rfl rfl rfl rfl rfl
  admitted := h.admitted
  referenced := h.referenced.of_eq rfl rfl rfl fun _ => subset_rfl
  projected := h.projected.of_eq (fun _ => rfl) rfl rfl
  hosts := h.hosts.of_eq rfl rfl rfl
  crons := h.crons.of_eq rfl rfl

/-! ## What processes rely on -/

/-- The others keep the database coherent, issue versions for good, and leave the numbers of the
    process alone. -/
structure Undisturbed (i : ℕ) (db db' : Db) : Prop where
  coherent : Coherent db → Coherent db'
  later : Later db db'
  held : ∀ v, Held i v db → Held i v db'

/-- The outlook of the process `i`. -/
def outlook (i : ℕ) : Outlook := ⟨Coherent, Undisturbed i, Held i, fun _ _ => True⟩

theorem outlook_remembers (i : ℕ) : (outlook i).Remembers where
  numbered _ h := h.numbered
  indexed _ h := h.indexed
  later _ _ h := h.later

theorem Coherent.settled {db : Db} (h : Coherent db) (i : ℕ) : Settled (outlook i) i db where
  remembers := outlook_remembers i
  held _ hv := hv
  inv := h
  admitted := h.admitted
  projected := h.projected

section Steps

variable {i j : ℕ} {db db' : Db}

theorem Transaction.coherent (ht : Transaction (outlook i) db db') (h : Coherent db) :
    Coherent db' := by
  obtain ⟨hstep, hnext, hholder⟩ := ht.bundleStep
  exact {
    numbered := hstep.numbered (fun _ hv => hv) hnext hholder h.numbered
    indexed := ht.indexed h.indexed
    admitted := hstep.admitted (outlook_remembers i) (fun _ hv => hv) h.numbered h.admitted
    referenced := ht.referenced (fun _ => Coherent.referenced) h.referenced
    projected := ht.projected (h.settled i) fun _ => Coherent.projected
    hosts := ht.hostsCoherent (h.settled i) (fun _ => Coherent.hosts) h.hosts
    crons := ht.cronsActive h.crons }

theorem Command.undisturbed {c : Command} {x : Command.interface.Ans c}
    (hstep : Command.Step c db x db') (h : Coherent db) : Undisturbed j db db' := by
  have hn := Command.numbered hstep h.numbered
  refine ⟨fun h => ?_, Command.later hstep, fun v hv => Command.held hstep h.numbered hv⟩
  obtain ⟨nextVersion, holder, deleteLock, rfl⟩ := Command.step_eq hstep
  exact h.frame hn

theorem Change.undisturbed (hc : Change (outlook i) i db db') (hij : i ≠ j) (h : Coherent db) :
    Undisturbed j db db' := by
  cases hc with
  | stay => exact ⟨id, .refl db, fun _ hv => hv⟩
  | command c x db' own hstep => exact Command.undisturbed hstep h
  | transaction db' ht =>
    obtain ⟨hstep, -, hholder⟩ := ht.bundleStep
    exact ⟨ht.coherent, hstep.later fun _ hv => hv,
      fun v hv => hstep.held hij (fun _ hv => hv) hholder hv⟩

theorem Event.undisturbed (e : Event) (db : Db) : Undisturbed j db (e.apply db) := by
  obtain ⟨deleteLock, nsSecrets, heq⟩ := e.apply_eq db
  rw [heq]
  refine ⟨fun h => h.frame ?_, ⟨fun _ _ h => h, fun _ _ _ h => h⟩, fun _ hv => hv⟩
  exact ⟨h.numbered.stored, h.numbered.issued, h.numbered.given⟩

end Steps

/-- What the process `i` relies on. -/
def coherenceReliance (i : ℕ) : Reliance i where
  toOutlook := outlook i
  rel_refl _ := ⟨id, .refl _, fun _ hv => hv⟩
  rel_trans _ _ _ hab hbc := ⟨fun h => hbc.coherent (hab.coherent h), hab.later.trans hbc.later,
    fun v hv => hbc.held v (hab.held v hv)⟩
  inv_rel _ _ h hab := hab.coherent h
  held_rel v _ _ hv hab := hab.held v hv
  inv_transaction _ _ h ht := ht.coherent h
  rel_command _ _ _ _ h _ hstep := Command.undisturbed hstep h
  held_incr _ _ _ _ h hstep := held_of_incr h.numbered hstep
  seen_rel _ _ _ _ _ := trivial
  seen_stored _ _ _ _ _ _ := trivial
  seen_transaction _ _ _ _ _ _ := trivial

/-- All processes together. -/
def coherence : Discipline where
  reliance := coherenceReliance
  inv := Coherent
  inv_eq _ := rfl
  rel_change _ _ _ _ hij h hc := hc.undisturbed hij h
  rel_event e _ a _ := e.undisturbed a

/-- **Coherence.** The database is coherent in every reachable world. -/
theorem coherent_of_reachable {w : ControlWorld} (h : control.Reachable Initial w) :
    Coherent w.store.db := by
  refine coherence.inv_of_reachable (fun s hs => ?_) h
  rw [show s.db = Db.empty from hs]
  exact .empty

end Wdl.Control
