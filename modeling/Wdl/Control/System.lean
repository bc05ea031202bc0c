import Wdl.Control.Deploy
import Wdl.Control.Lifecycle

/-!
# The control plane as a system of processes

Each request is a process, on any replica, and each of them may stop at any point. Delete
locks expire at any time, and the secrets of namespaces are changed by requests of their own.
-/

namespace Wdl.Control

open Function

/-- The requests to the control plane. -/
inductive Kind
  | deploy (w : WorkerId) (request : DeployRequest) (fresh : FreshIds)
  | promote (w : WorkerId) (version : Version)
  | mutateSecret (w : WorkerId) (key : String) (mutation : SecretMutation)
  | deleteVersion (w : WorkerId) (version : Version)
  | deleteWorker (w : WorkerId)
  | reconcileHosts (ns : Ns) (hosts : Finset Host)
  | createDatabase (ns : Ns) (databaseName databaseId : String) (now : ℕ) (initialized : Bool)
  | deleteDatabase (ns : Ns) (databaseRef : String)

/-- The program of a request. -/
def body (i : ℕ) : Kind → ControlM Reply
  | .deploy w request fresh => deploy i w request fresh
  | .promote w version => promoteWithRoutes i w version
  | .mutateSecret w key mutation => mutateSecret i w key mutation
  | .deleteVersion w version => deleteVersion i w version
  | .deleteWorker w => deleteWorker i w
  | .reconcileHosts ns hosts => reconcileHosts i ns hosts
  | .createDatabase ns databaseName databaseId now initialized =>
    createDatabase i ns databaseName databaseId now initialized
  | .deleteDatabase ns databaseRef => deleteDatabase i ns databaseRef

/-- What happens to the database without a request. -/
inductive Event
  /-- A delete lock expires. -/
  | lockExpires (w : WorkerId)
  /-- The secrets of a namespace change. -/
  | nsSecrets (ns : Ns) (secrets : Hash String String)

/-- What an event does. -/
def Event.apply : Event → Db → Db
  | .lockExpires w, db => { db with deleteLock := update db.deleteLock w none }
  | .nsSecrets ns secrets, db => { db with nsSecrets := update db.nsSecrets ns secrets }

/-- The control plane. -/
def control : System api (Shared keyed) Kind Failure Reply Event where
  body := body
  call := Request.Step Command.Step
  env e s t := t = s.move (e.apply s.db)

/-- A world of the control plane. -/
abbrev ControlWorld := World api (Shared keyed) Kind Failure Reply

/-- The control plane before its first request. -/
def Initial (s : Shared keyed) : Prop := s.db = Db.empty

/-! ## Undisturbed requests -/

/-- What a command answers and does. -/
def Command.answer : (c : Command.interface.Call) → Db → Command.interface.Ans c × Db
  | .incrNextVersion i w, db =>
    (db.nextVersion w + 1, { db with
      nextVersion := update db.nextVersion w (db.nextVersion w + 1)
      holder := update db.holder (w.1, w.2, db.nextVersion w + 1) (some i) })
  | .acquireDeleteLock w token, db =>
    if db.deleteLock w = none then
      (true, { db with deleteLock := update db.deleteLock w (some token) })
    else (false, db)
  | .renewDeleteLock w token, db => ((db.deleteLock w = some token : Bool), db)
  | .releaseDeleteLock w token, db =>
    ((), if db.deleteLock w = some token then
        { db with deleteLock := update db.deleteLock w none }
      else db)

theorem Command.answer_step (c : Command) (db : Db) :
    Command.Step c db (Command.answer c db).1 (Command.answer c db).2 := by
  cases c with
  | incrNextVersion i w => exact ⟨rfl, rfl⟩
  | acquireDeleteLock w token =>
    rw [Command.answer]
    split
    · rename_i hfree
      exact .inl ⟨hfree, rfl, rfl⟩
    · rename_i hheld
      exact .inr ⟨hheld, rfl, rfl⟩
  | renewDeleteLock w token => exact ⟨rfl, rfl⟩
  | releaseDeleteLock w token => exact rfl

/-- What is stored after the request `i` has run alone. -/
def serve (i : ℕ) (k : Kind) (db : Db) : Db := ((body i k).alone Command.answer none db).2.2

variable {init : Shared keyed → Prop} {w : ControlWorld}

section

variable {i : ℕ} {k : Kind} {p q : ControlM Reply} {t : Shared keyed}

/-- A request may be started, and make some of its calls while the others do nothing. -/
theorem exists_steps_start (hi : w.proc i = none)
    (hr : (body i k).Runs control.call w.store q t) :
    ∃ w', control.StepsWhen (fun _ _ => True) w w' ∧ w'.store = t ∧
      w'.proc i = some ⟨k, q, true⟩ ∧ ∀ j, j ≠ i → w'.proc j = w.proc j :=
  ⟨_, .start (fun _ _ _ _ => trivial) .refl hi trivial hr, rfl, World.setProc_proc_self ..,
    fun _ hj => World.setProc_proc_ne _ _ hj⟩

/-- A request that has been started may go on while the others do nothing. -/
theorem exists_steps_resume (hi : w.proc i = some ⟨k, p, true⟩)
    (hr : p.Runs control.call w.store q t) :
    ∃ w', control.StepsWhen (fun _ _ => True) w w' ∧ w'.store = t ∧
      w'.proc i = some ⟨k, q, true⟩ ∧ ∀ j, j ≠ i → w'.proc j = w.proc j :=
  ⟨_, .resume (fun _ _ _ _ => trivial) .refl hi hr, rfl, World.setProc_proc_self ..,
    fun _ hj => World.setProc_proc_ne _ _ hj⟩

end

/-- A request may run while the others do nothing. -/
theorem reachable_serve (h : control.Reachable init w)
    {i : ℕ} (hi : w.proc i = none) (k : Kind) : ∃ w', control.Reachable init w' ∧
      w'.store.db = serve i k w.store.db ∧ ∀ j, j ≠ i → w'.proc j = w.proc j := by
  obtain ⟨t, hdb, -, hruns⟩ := Prog.alone_runs Command.answer_step (body i k) none w.store nofun
  obtain ⟨w', hs, rfl, -, hothers⟩ := exists_steps_start hi hruns
  exact ⟨w', h.steps hs, hdb, hothers⟩

/-- What is stored after some requests have run one after the other, from the process `i` on. -/
def serves : ℕ → List Kind → Db → Db
  | _, [], db => db
  | i, k :: ks, db => serves (i + 1) ks (serve i k db)

theorem reachable_serves (ks : List Kind) {i : ℕ} (h : control.Reachable init w)
    (hfree : ∀ j, i ≤ j → w.proc j = none) :
    ∃ w', control.Reachable init w' ∧ w'.store.db = serves i ks w.store.db ∧
      ∀ j, i + ks.length ≤ j → w'.proc j = none := by
  induction ks generalizing i w with
  | nil => exact ⟨w, h, rfl, hfree⟩
  | cons k ks ih =>
    obtain ⟨w₁, h₁, hdb, hothers⟩ := reachable_serve h (hfree i le_rfl) k
    have hfree₁ : ∀ j, i + 1 ≤ j → w₁.proc j = none := by
      intro j hj
      rw [hothers j (Nat.ne_of_gt hj)]
      exact hfree j (Nat.le_of_succ_le hj)
    obtain ⟨w₂, h₂, hdb₂, hfree₂⟩ := ih h₁ hfree₁
    refine ⟨w₂, h₂, hdb₂.trans (by rw [hdb]; rfl), fun j hj => hfree₂ j ?_⟩
    rwa [List.length_cons, Nat.add_comm ks.length, ← Nat.add_assoc] at hj

theorem exists_reachable_serves (ks : List Kind) :
    ∃ w, control.Reachable Initial w ∧ w.store.db = serves 0 ks Db.empty ∧
      ∀ j, 0 + ks.length ≤ j → w.proc j = none := by
  have h : control.Reachable Initial ⟨⟨Db.empty, fun _ => .fresh⟩, fun _ => none⟩ := .init rfl
  exact reachable_serves ks h fun _ _ => rfl

/-- A request to deploy a worker with nothing in it. -/
def DeployRequest.plain : DeployRequest where
  routes := []
  workersDev := true
  sessionPolicy := .preserve
  exports := []
  platformBindings := []
  crons := []
  queueConsumers := []
  bindings := []
  workflows := []

end Wdl.Control
