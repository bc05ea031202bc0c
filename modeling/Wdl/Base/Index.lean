import Wdl.Base.Hash

/-!
# Families of sets and of tables

An index is a family of sets, one for each key, and a directory is a family of hashes.
What a transaction does to them is a list of single changes, made one after the other:
`Index.insertAll`, `Index.eraseAll`, `Directory.putAll` and `Directory.dropAll`. The
lemmas say what is there afterwards, without the order.

A table is often a *projection*: each entry belongs to an owner, and the owners' entries
together are the table (`Projects`). It stays one when the entries of one owner are
replaced (`Projects.replace`).
-/

namespace Wdl

open Option List Function

namespace Index

variable {κ ρ : Type} [DecidableEq κ] [DecidableEq ρ]

/-- Add members, each to the set of its key. -/
def insertAll (f : κ → Finset ρ) (l : List (κ × ρ)) : κ → Finset ρ :=
  l.foldl (fun f x => update f x.1 (insert x.2 (f x.1))) f

/-- Remove members, each from the set of its key. -/
def eraseAll (f : κ → Finset ρ) (l : List (κ × ρ)) : κ → Finset ρ :=
  l.foldl (fun f x => update f x.1 ((f x.1).erase x.2)) f

variable {f : κ → Finset ρ} {k : κ} {x : ρ} {l : List (κ × ρ)}

theorem mem_insertAll :
    x ∈ insertAll f l k ↔ x ∈ f k ∨ (k, x) ∈ l := by
  induction l generalizing f with
  | nil => simp [insertAll]
  | cons y l ih =>
    rw [insertAll, foldl_cons, ← insertAll, ih, update_apply, mem_cons, Prod.ext_iff]
    split_ifs with hk
    · simp only [hk, Finset.mem_insert]
      tauto
    · simp only [hk, false_and, false_or]

theorem mem_eraseAll :
    x ∈ eraseAll f l k ↔ x ∈ f k ∧ (k, x) ∉ l := by
  induction l generalizing f with
  | nil => simp [eraseAll]
  | cons y l ih =>
    rw [eraseAll, foldl_cons, ← eraseAll, ih, update_apply, mem_cons, Prod.ext_iff]
    split_ifs with hk
    · simp only [hk, Finset.mem_erase]
      tauto
    · simp only [hk, false_and, false_or]

variable {a : κ × ρ}

theorem mem_insert_update :
    x ∈ update f a.1 (insert a.2 (f a.1)) k ↔ (k, x) = a ∨ x ∈ f k := by
  have h := mem_insertAll (f := f) (l := [a]) (k := k) (x := x)
  rwa [mem_singleton, or_comm] at h

theorem mem_erase_update :
    x ∈ update f a.1 ((f a.1).erase a.2) k ↔ (k, x) ≠ a ∧ x ∈ f k := by
  have h := mem_eraseAll (f := f) (l := [a]) (k := k) (x := x)
  rwa [mem_singleton, and_comm] at h

end Index

namespace Directory

variable {κ ι ν : Type} [DecidableEq κ] [DecidableEq ι]

/-- Write fields, each in the hash of its key. -/
def putAll (f : κ → Hash ι ν) (l : List ((κ × ι) × ν)) : κ → Hash ι ν :=
  l.foldl (fun f x => update f x.1.1 ((f x.1.1).insert x.1.2 x.2)) f

/-- Delete fields, each from the hash of its key. -/
def dropAll (f : κ → Hash ι ν) (l : List (κ × ι)) : κ → Hash ι ν :=
  l.foldl (fun f x => update f x.1 ((f x.1).erase x.2)) f

theorem lookup_put (f : κ → Hash ι ν) (a : κ × ι) (v : ν) (k : κ × ι) :
    (update f a.1 ((f a.1).insert a.2 v) k.1).lookup k.2 =
      if k = a then some v else (f k.1).lookup k.2 := by
  by_cases hk : k = a
  · rw [hk, if_pos rfl, update_self, Finmap.lookup_insert]
  · rw [if_neg hk, update_apply]
    split_ifs with h
    · rw [Finmap.lookup_insert_of_ne _ fun hj => hk (Prod.ext h hj), h]
    · rfl

theorem lookup_drop (f : κ → Hash ι ν) (a : κ × ι) (k : κ × ι) :
    (update f a.1 ((f a.1).erase a.2) k.1).lookup k.2 =
      if k = a then none else (f k.1).lookup k.2 := by
  by_cases hk : k = a
  · rw [hk, if_pos rfl, update_self, Finmap.lookup_erase]
  · rw [if_neg hk, update_apply]
    split_ifs with h
    · rw [Finmap.lookup_erase_ne fun hj => hk (Prod.ext h hj), h]
    · rfl

theorem lookup_dropAll (f : κ → Hash ι ν) (l : List (κ × ι)) (k : κ) (j : ι) :
    (dropAll f l k).lookup j = if (k, j) ∈ l then none else (f k).lookup j := by
  induction l generalizing f with
  | nil => rfl
  | cons x l ih =>
    rw [dropAll, foldl_cons, ← dropAll, ih, update_apply]
    by_cases hl : (k, j) ∈ l
    · rw [if_pos hl, if_pos (mem_cons_of_mem _ hl)]
    · rw [if_neg hl]
      by_cases hx : (k, j) = x
      · subst hx
        rw [if_pos rfl, if_pos (mem_cons_self ..), Finmap.lookup_erase]
      · have hmem : (k, j) ∉ x :: l := by simp [hx, hl]
        split_ifs with hk
        · rw [← hk, Finmap.lookup_erase_ne fun hj => hx (Prod.ext hk hj)]
        · rfl

variable {l : List ((κ × ι) × ν)} {f : κ → Hash ι ν}

theorem lookup_putAll_of_notMem {k : κ} {j : ι}
    (h : ∀ x ∈ l, x.1 ≠ (k, j)) : (putAll f l k).lookup j = (f k).lookup j := by
  induction l generalizing f with
  | nil => rfl
  | cons x l ih =>
    obtain ⟨hx, hl⟩ := forall_mem_cons.1 h
    rw [putAll, foldl_cons, ← putAll, ih hl, update_apply]
    split_ifs with hk
    · rw [Finmap.lookup_insert_of_ne _ fun hj => hx (Prod.ext hk.symm hj.symm), hk]
    · rfl

/-- A field that is written holds one of the values written to it. -/
theorem lookup_putAll_of_mem {k : κ} {j : ι} {v : ν}
    (h : ((k, j), v) ∈ l) : ∃ v', ((k, j), v') ∈ l ∧ (putAll f l k).lookup j = some v' := by
  induction l generalizing f v with
  | nil => simp at h
  | cons x l ih =>
    rw [putAll, foldl_cons, ← putAll]
    by_cases hl : ∃ v', ((k, j), v') ∈ l
    · obtain ⟨v', hv'⟩ := hl
      obtain ⟨u, hu, hlookup⟩ := ih (f := update f x.1.1 ((f x.1.1).insert x.1.2 x.2)) hv'
      exact ⟨u, mem_cons_of_mem _ hu, hlookup⟩
    · have hx : ((k, j), v) = x := (mem_cons.1 h).resolve_right fun h => hl ⟨v, h⟩
      subst hx
      refine ⟨v, mem_cons_self .., ?_⟩
      rw [lookup_putAll_of_notMem fun y hy hyk => hl ⟨y.2, by rwa [← hyk]⟩, update_self,
        Finmap.lookup_insert]

theorem lookup_putAll_of_nodup (hl : (l.map Prod.fst).Nodup) {x : (κ × ι) × ν} (hx : x ∈ l) :
    (putAll f l x.1.1).lookup x.1.2 = some x.2 := by
  obtain ⟨v, hv, hlookup⟩ := lookup_putAll_of_mem (f := f) (show ((x.1.1, x.1.2), x.2) ∈ l from hx)
  rw [hlookup, some_inj]
  exact (Prod.ext_iff.1 (inj_on_of_nodup_map hl hv hx rfl)).2

end Directory

/-! ## Projections -/

section Projections

variable {κ ν ω : Type}

/-- The entries at the keys `old` of a table are replaced by the entries `new`. -/
structure Replaced (old : List κ) (new : List (κ × ν)) (table table' : κ → Option ν) : Prop where
  put : ∀ x ∈ new, table' x.1 = some x.2
  drop : ∀ k ∈ old, k ∉ new.map Prod.fst → table' k = none
  keep : ∀ k, k ∉ new.map Prod.fst → k ∉ old → table' k = table k

variable {table : κ → Option ν} {v : ν} {k : κ} {table' : κ → Option ν}

/-- What is found afterwards is new, or was there and stays. -/
theorem Replaced.cases {old : List κ} {new : List (κ × ν)} (h : Replaced old new table table')
    (hv : table' k = some v) :
    (k, v) ∈ new ∨ (k ∉ new.map Prod.fst ∧ k ∉ old ∧ table k = some v) := by
  by_cases hk : k ∈ new.map Prod.fst
  · obtain ⟨⟨k, u⟩, hu, rfl⟩ := mem_map.1 hk
    have hsame : u = v := some_inj.1 ((h.put _ hu).symm.trans hv)
    exact .inl (hsame ▸ hu)
  · by_cases hold : k ∈ old
    · cases (h.drop k hold hk).symm.trans hv
    · exact .inr ⟨hk, hold, h.keep k hk hold ▸ hv⟩

/-- An entry is in the table if it is one of its owner's. -/
def Projects (owner : κ → ν → ω) (part : ω → List (κ × ν)) (table : κ → Option ν) : Prop :=
  ∀ k v, table k = some v ↔ (k, v) ∈ part (owner k v)

variable {owner : κ → ν → ω} {part : ω → List (κ × ν)} {a : ω}

theorem Projects.find (h : Projects owner part table)
    (hold : ∀ k v, (k, v) ∈ part a → owner k v = a) (hv : (k, v) ∈ part a) : table k = some v := by
  rw [h k v, hold k v hv]
  exact hv

/-- The entries of one owner are replaced. The keys of the new ones are free or the owner's. -/
theorem Projects.replace {part' : ω → List (κ × ν)} (h : Projects owner part table)
    (hr : Replaced ((part a).map Prod.fst) (part' a) table table')
    (hothers : ∀ b, b ≠ a → part' b = part b) (hold : ∀ k v, (k, v) ∈ part a → owner k v = a)
    (hnew : ∀ k v, (k, v) ∈ part' a → owner k v = a)
    (hfree : ∀ k v, k ∈ (part' a).map Prod.fst → table k = some v → owner k v = a) :
    Projects owner part' table' := by
  intro k v
  by_cases hk : k ∈ (part' a).map Prod.fst
  · -- the key is one of the new ones
    obtain ⟨⟨k, u⟩, hu, rfl⟩ := mem_map.1 hk
    have hput : table' k = some u := hr.put _ hu
    rw [hput, some_inj]
    constructor
    · rintro rfl
      rwa [hnew k u hu]
    · intro hv
      by_cases hown : owner k v = a
      · rw [hown] at hv
        exact some_inj.1 (hput.symm.trans (hr.put _ hv))
      · rw [hothers _ hown] at hv
        exact absurd (hfree k v hk ((h k v).2 hv)) hown
  · by_cases ha : k ∈ (part a).map Prod.fst
    · -- the key is no longer the owner's
      obtain ⟨⟨k, u⟩, hu, rfl⟩ := mem_map.1 ha
      have hheld : table k = some u := h.find hold hu
      rw [hr.drop _ ha hk]
      refine iff_of_false nofun fun hv => ?_
      by_cases hown : owner k v = a
      · rw [hown] at hv
        exact hk (mem_map.2 ⟨_, hv, rfl⟩)
      · rw [hothers _ hown] at hv
        have hsame : v = u := some_inj.1 (((h k v).2 hv).symm.trans hheld)
        exact hown (hsame ▸ hold k u hu)
    · rw [hr.keep k hk ha, h k v]
      by_cases hown : owner k v = a
      · rw [hown]
        exact iff_of_false (fun hv => ha (mem_map_of_mem hv)) fun hv => hk (mem_map_of_mem hv)
      · rw [hothers _ hown]

variable {ι : Type} [DecidableEq κ] [DecidableEq ι] {new : List ((κ × ι) × ν)} {old : List (κ × ι)}
  {f : κ → Hash ι ν}

section

variable (drops : List (κ × ι)) (hnew : (new.map Prod.fst).Nodup)
  (hdrops : ∀ k, k ∈ drops ↔ k ∈ old ∧ k ∉ new.map Prod.fst)

include drops hnew hdrops

theorem Replaced.put_drop :
    Replaced old new (fun k => (f k.1).lookup k.2)
      fun k => (Directory.putAll (Directory.dropAll f drops) new k.1).lookup k.2 := by
  have hother : ∀ k, k ∉ new.map Prod.fst →
      (Directory.putAll (Directory.dropAll f drops) new k.1).lookup k.2 =
        if k ∈ drops then none else (f k.1).lookup k.2 := by
    intro k hk
    have hnew : ∀ x ∈ new, x.1 ≠ (k.1, k.2) := fun x hx hxk => hk (mem_map.2 ⟨x, hx, hxk⟩)
    rw [Directory.lookup_putAll_of_notMem hnew, Directory.lookup_dropAll]
  refine ⟨fun x hx => Directory.lookup_putAll_of_nodup hnew hx, fun k hk hnot => ?_,
    fun k hnot hk => ?_⟩
  · rw [hother k hnot, if_pos ((hdrops k).2 ⟨hk, hnot⟩)]
  · rw [hother k hnot, if_neg fun h => hk ((hdrops k).1 h).1]

theorem Replaced.drop_put :
    Replaced old new (fun k => (f k.1).lookup k.2)
      fun k => (Directory.dropAll (Directory.putAll f new) drops k.1).lookup k.2 := by
  have hother : ∀ k, k ∉ new.map Prod.fst →
      (Directory.dropAll (Directory.putAll f new) drops k.1).lookup k.2 =
        if k ∈ drops then none else (f k.1).lookup k.2 := by
    intro k hk
    have hnew : ∀ x ∈ new, x.1 ≠ (k.1, k.2) := fun x hx hxk => hk (mem_map.2 ⟨x, hx, hxk⟩)
    rw [Directory.lookup_dropAll, Directory.lookup_putAll_of_notMem hnew]
  refine ⟨fun x hx => ?_, fun k hk hnot => ?_, fun k hnot hk => ?_⟩
  · rw [Directory.lookup_dropAll, if_neg fun h => ((hdrops x.1).1 h).2 (mem_map_of_mem hx)]
    exact Directory.lookup_putAll_of_nodup hnew hx
  · rw [hother k hnot, if_pos ((hdrops k).2 ⟨hk, hnot⟩)]
  · rw [hother k hnot, if_neg fun h => hk ((hdrops k).1 h).1]

end

theorem Replaced.put_same (hnew : (new.map Prod.fst).Nodup)
    (hold : ∀ k ∈ old, k ∈ new.map Prod.fst) :
    Replaced old new (fun k => (f k.1).lookup k.2) fun k =>
      (Directory.putAll f new k.1).lookup k.2 :=
  .put_drop [] hnew fun k => iff_of_false not_mem_nil fun h => h.2 (hold k h.1)

omit [DecidableEq κ] in
theorem Projects.owner_of_mem (h : Projects owner part table)
    (hold : ∀ k v, (k, v) ∈ part a → owner k v = a) (hk : k ∈ (part a).map Prod.fst)
    (hv : table k = some v) : owner k v = a := by
  obtain ⟨⟨k, u⟩, hu, rfl⟩ := mem_map.1 hk
  have hheld : table k = some u := h.find hold hu
  have hsame : v = u := some_inj.1 (hv.symm.trans hheld)
  rw [hsame]
  exact hold k u hu

end Projections

/-! ## Lists -/

/-- A member of the first of two related lists is related to one of the second. -/
theorem exists_of_forall₂ {α β : Type} {P : α → β → Prop} {l : List α} {l' : List β}
    (h : List.Forall₂ P l l') {a : α} (ha : a ∈ l) : ∃ b ∈ l', P a b := by
  induction h with
  | nil => simp at ha
  | @cons c b l l' hcb _ ih =>
    rcases mem_cons.1 ha with rfl | ha
    · exact ⟨b, mem_cons_self .., hcb⟩
    · obtain ⟨b, hb, hab⟩ := ih ha
      exact ⟨b, mem_cons_of_mem _ hb, hab⟩

/-- A member of the second of two related lists is related to one of the first. -/
theorem exists_of_forall₂_right {α β : Type} {P : α → β → Prop} {l : List α} {l' : List β}
    (h : List.Forall₂ P l l') {b : β} (hb : b ∈ l') : ∃ a ∈ l, P a b :=
  exists_of_forall₂ (P := flip P) h.flip hb

theorem map_eq_of_forall₂ {α β γ : Type} {f : α → γ} {g : β → γ} {l : List α} {l' : List β}
    (h : List.Forall₂ (fun a b => g b = f a) l l') : l'.map g = l.map f := by
  induction h with
  | nil => rfl
  | cons hab _ ih => rw [map_cons, map_cons, hab, ih]

/-- Both parts of a sequence that does not fail do not fail. -/
theorem exists_of_bind_ok {ε α β : Type} {x : Except ε α} {f : α → Except ε β} {b : β}
    (h : x >>= f = .ok b) : ∃ a, x = .ok a ∧ f a = .ok b := by
  cases x with
  | error e => cases h
  | ok a => exact ⟨a, rfl, h⟩

theorem forall₂_of_mapM_ok {ε α β : Type} {f : α → Except ε β} {l : List α} {l' : List β}
    (h : l.mapM f = .ok l') : List.Forall₂ (fun a b => f a = .ok b) l l' := by
  induction l generalizing l' with
  | nil => cases h; exact .nil
  | cons a l ih =>
    rw [mapM_cons] at h
    obtain ⟨b, hb, h⟩ := exists_of_bind_ok h
    obtain ⟨bs, hbs, h⟩ := exists_of_bind_ok h
    cases h
    exact .cons hb (ih hbs)

theorem mem_of_lookup {κ ν : Type} [BEq κ] [LawfulBEq κ] {l : List (κ × ν)} {k : κ} {v : ν}
    (h : l.lookup k = some v) : (k, v) ∈ l := by
  obtain ⟨l₁, l₂, rfl, -⟩ := lookup_eq_some_iff.1 h
  simp

end Wdl
