import Wdl.Control.Processes

/-!
# Runs of the control plane

A `Discipline` is an invariant of the database together with what each process may rely on,
such that every change that a process makes keeps to what the others rely on. It then holds
throughout every run: `Discipline.inv_of_reachable` for the invariant, and
`Discipline.change_of_step` for single steps.
-/

namespace Wdl.Control

/-- What all processes keep to. -/
structure Discipline where
  /-- The outlook of each process. -/
  reliance : (i : ℕ) → Reliance i
  /-- The invariant of the database. -/
  inv : Db → Prop
  inv_eq : ∀ i, (reliance i).inv = inv
  rel_change : ∀ i j a b, i ≠ j → inv a → Change (reliance i).toOutlook i a b → (reliance j).rel a b
  rel_event : ∀ e j a, inv a → (reliance j).rel a (Event.apply e a)

namespace Discipline

variable (δ : Discipline) {i : ℕ}

theorem inv_change {a b : Db} (h : δ.inv a) (hc : Change (δ.reliance i).toOutlook i a b) :
    δ.inv b := by
  rw [← δ.inv_eq i] at h ⊢
  cases hc with
  | stay => exact h
  | command c x db' own hstep =>
    exact (δ.reliance i).inv_rel _ _ h ((δ.reliance i).rel_command c x _ _ h own hstep)
  | transaction db' ht => exact (δ.reliance i).inv_transaction _ _ h ht

theorem inv_event {e : Event} {a : Db} (h : δ.inv a) : δ.inv (e.apply a) := by
  have hrel := δ.rel_event e 0 a h
  rw [← δ.inv_eq 0] at h ⊢
  exact (δ.reliance 0).inv_rel _ _ h hrel

/-- The rely-guarantee proof. -/
def relyGuarantee {init : Shared keyed → Prop} (hinit : ∀ s, init s → δ.inv s.db) :
    System.RelyGuarantee control init fun _ _ => True where
  inv s := δ.inv s.db
  rely i _ := Shared.Moves i (δ.reliance i).rel
  guar i _ := Shared.Guar i (Change (δ.reliance i).toOutlook i)
  compat _ _ _ _ := True
  inv_init := hinit
  rely_refl i _ := Shared.Moves.refl (δ.reliance i).rel_refl
  rely_trans i _ _ _ _ := Shared.Moves.trans (δ.reliance i).rel_trans
  guar_inv _ _ _ _ h hg := δ.inv_change h hg.db
  guar_rely i _ j _ _ _ hne _ h hg :=
    hg.moves (δ.reliance j).rel_refl (Ne.symm hne) (δ.rel_change i j _ _ hne h hg.db)
  env_inv w e t _ h he := by
    obtain rfl : t = _ := he
    exact δ.inv_event h
  env_rely w e t i _ _ h he := by
    obtain rfl : t = _ := he
    exact .of_sees (δ.reliance i).rel_refl (δ.rel_event e i _ h) (.inr rfl)
  spawn_compat _ _ _ _ _ _ _ _ _ _ := ⟨trivial, trivial⟩
  spawn_safe w i k _ h _ _ := by
    refine ((δ.reliance i).body_safe k w.store ?_).mono fun _ _ _ => trivial
    rw [δ.inv_eq]
    exact h

variable {init : Shared keyed → Prop} (hinit : ∀ s, init s → δ.inv s.db)
include hinit

variable {w : ControlWorld}

theorem inv_of_reachable (h : control.Reachable init w) : δ.inv w.store.db :=
  ((δ.relyGuarantee hinit).holds h).inv

/-- What a step does to the database. -/
theorem change_of_step {w' : ControlWorld} {l : Label api Kind Event}
    (h : control.Reachable init w) (hs : control.Step w l w') :
    w'.store.db = w.store.db ∨
      (∃ i, Change (δ.reliance i).toOutlook i w.store.db w'.store.db) ∨
      ∃ e, w'.store.db = Event.apply e w.store.db := by
  cases hs with
  | spawn i k hi => exact .inl rfl
  | call i hi hc => exact .inr (.inl ⟨i, ((δ.relyGuarantee hinit).call_guar h hi hc).db⟩)
  | stop i hi => exact .inl rfl
  | env e he =>
    obtain rfl : _ = _ := he
    exact .inr (.inr ⟨e, rfl⟩)

end Discipline

end Wdl.Control
