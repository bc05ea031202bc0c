import Wdl.Base.RelyGuarantee
import Mathlib.Data.List.Forall2
import Mathlib.Data.Set.Basic

/-!
# Optimistic transactions

A store that is read key by key offers optimistic transactions: a session *watches*
keys, reads what it likes, and at the end hands over all its writes at once. The writes
are applied only if no watched key has changed since it was watched; otherwise nothing
happens and the session is told so. Reads are not part of the transaction: each of them
is answered when it is made, and between two of them anything may happen.

* `Keyed` says how a store is read, and `Session` is a program that watches, reads and
  scans. It ends with a `Verdict`: writes to commit, a result without writes, or a retry.
* `Request` is what a process asks of the store: the requests of its sessions, on its
  own connection, and plain commands. `Request.Step` is what the store does: a change of
  the store marks every connection that watches a changed key (`Conn.notice`).
* `runOptimistic` runs a session up to a number of times, as long as its commit is refused.
* `Session.Ensures A R db W p Q` speaks of the session *as if it were atomic*: when it
  watches the keys `W` and its reads are answered by stores that agree with `db` on what
  is watched, it fails or ends in `Q`. A read of a watched key is then a read of `db`
  (`Session.Ensures.read_bind`).
* `runOptimistic_safe` is the rule that connects the two: a session that commits does so
  in a store `db` for which it ensures `Q`, whatever the others did during its reads.
-/

namespace Wdl

open Prog.SafeFrom

/-- How a store is read: its keys, what is read at each of them, and which of them
    exist. -/
structure Keyed (σ : Type) where
  /-- The keys. -/
  Key : Type
  /-- What is read at a key. -/
  Val : Key → Type
  /-- The value of a key. -/
  get : σ → (k : Key) → Val k
  /-- Whether there is something at a key. -/
  Present : σ → Key → Prop

variable {σ ε α β : Type} {K : Keyed σ} {C : Interface}

/-- What a session asks of the store. -/
inductive Query (K : Keyed σ)
  /-- Watch these keys from now on. -/
  | watch (ks : List K.Key)
  /-- Read a key. -/
  | read (k : K.Key)
  /-- Go through all keys that satisfy `p`. -/
  | scan (p : K.Key → Bool)

/-- The queries of a session and their answers. -/
abbrev Query.interface (K : Keyed σ) : Interface where
  Call := Query K
  Ans
    | .watch _ => Unit
    | .read k => K.Val k
    | .scan _ => List K.Key

/-- A session: a program that watches, reads and scans. -/
abbrev Session (K : Keyed σ) (ε α : Type) := Prog (Query.interface K) ε α

/-- How a session ends. -/
inductive Verdict (σ α : Type)
  /-- The writes to be applied at once, and the result if they are. -/
  | commit (m : σ → σ) (a : α)
  /-- A result without writes. -/
  | leave (a : α)
  /-- The session saw a change of what it watches, and is to be run again. -/
  | retry

/-- What a process asks of the store: the requests of its sessions, with the number of
    its connection, and plain commands. -/
inductive Request (K : Keyed σ) (C : Interface)
  /-- Open a connection for a session. -/
  | connect (i : ℕ)
  /-- Watch these keys. -/
  | watch (i : ℕ) (ks : List K.Key)
  /-- Read a key. -/
  | read (k : K.Key)
  /-- Begin to go through the keys. -/
  | scanStart (i : ℕ)
  /-- End going through the keys, with those that satisfy `p`. -/
  | scanEnd (i : ℕ) (p : K.Key → Bool)
  /-- Apply these writes if no watched key has changed. -/
  | exec (i : ℕ) (m : σ → σ)
  /-- A single command. -/
  | command (c : C.Call)

/-- The requests of a process and their answers. -/
abbrev Request.interface (K : Keyed σ) (C : Interface) : Interface where
  Call := Request K C
  Ans
    | .connect _ => Unit
    | .watch _ _ => Unit
    | .read k => K.Val k
    | .scanStart _ => Unit
    | .scanEnd _ _ => List K.Key
    | .exec _ _ => Bool
    | .command c => C.Ans c

/-! ## The store and its connections -/

/-- What the store knows of a connection. -/
structure Conn (K : Keyed σ) where
  /-- The watched keys. -/
  watched : Set K.Key
  /-- A watched key has changed since it was watched. -/
  dirty : Prop
  /-- The keys that have existed all the time since the last scan began. -/
  kept : Set K.Key

namespace Conn

/-- A connection that watches nothing. -/
def fresh : Conn K := ⟨∅, False, ∅⟩

/-- The store changes from `db` to `db'`. -/
def notice (c : Conn K) (db db' : σ) : Conn K where
  watched := c.watched
  dirty := c.dirty ∨ ∃ k ∈ c.watched, K.get db' k ≠ K.get db k
  kept := {k ∈ c.kept | K.Present db' k}

end Conn

/-- The store with its connections, one for each process. -/
structure Shared (K : Keyed σ) where
  /-- What is stored. -/
  db : σ
  /-- The connections. -/
  conn : ℕ → Conn K

namespace Shared

/-- What is stored becomes `db'`, and the connections notice. -/
def move (s : Shared K) (db' : σ) : Shared K := ⟨db', fun j => (s.conn j).notice s.db db'⟩

/-- The connection `i` becomes `c`. -/
def setConn (s : Shared K) (i : ℕ) (c : Conn K) : Shared K :=
  { s with conn := Function.update s.conn i c }

@[simp] theorem move_db (s : Shared K) (db' : σ) : (s.move db').db = db' := rfl

@[simp] theorem move_conn (s : Shared K) (db' : σ) (j : ℕ) :
    (s.move db').conn j = (s.conn j).notice s.db db' := rfl

@[simp] theorem setConn_db (s : Shared K) (i : ℕ) (c : Conn K) : (s.setConn i c).db = s.db := rfl

@[simp] theorem setConn_conn_self (s : Shared K) (i : ℕ) (c : Conn K) :
    (s.setConn i c).conn i = c := Function.update_self ..

theorem setConn_conn_ne (s : Shared K) {i j : ℕ} (c : Conn K) (h : j ≠ i) :
    (s.setConn i c).conn j = s.conn j := Function.update_of_ne h ..

end Shared

/-- What the store does when it is asked something. The commands are those of `cmd`. -/
def Request.Step (cmd : (c : C.Call) → σ → C.Ans c → σ → Prop) :
    (q : (Request.interface K C).Call) → Shared K → (Request.interface K C).Ans q → Shared K → Prop
  | .connect i, s, _, t => t = s.setConn i .fresh
  | .watch i ks, s, _, t =>
    t = s.setConn i { s.conn i with watched := (s.conn i).watched ∪ {k | k ∈ ks} }
  | .read k, s, v, t => v = K.get s.db k ∧ t = s
  | .scanStart i, s, _, t => t = s.setConn i { s.conn i with kept := {k | K.Present s.db k} }
  -- a scan finds what has been there all the time, and may find more
  | .scanEnd i p, s, l, t => (∀ k ∈ (s.conn i).kept, p k → k ∈ l) ∧ t = s
  | .exec i m, s, ok, t =>
    (¬ (s.conn i).dirty ∧ ok = true ∧ t = (s.move (m s.db)).setConn i .fresh) ∨
      ((s.conn i).dirty ∧ ok = false ∧ t = s.setConn i .fresh)
  | .command c, s, x, t => ∃ db', cmd c s.db x db' ∧ t = s.move db'

namespace Session

/-- Run a session on the connection `i`, without opening it. Nothing is returned when the
    commit is refused or the session wants to be run again. -/
def go (C : Interface) (i : ℕ) :
    Session K ε (Verdict σ α) → Prog (Request.interface K C) ε (Option α)
  | .ret (.commit m a) => .call (.exec i m) fun ok => .ret (if ok then some a else none)
  | .ret (.leave a) => .ret (some a)
  | .ret .retry => .ret none
  | .fail e => .fail e
  | .call (.watch ks) f => .call (.watch i ks) fun x => go C i (f x)
  | .call (.read k) f => .call (.read k) fun v => go C i (f v)
  | .call (.scan p) f => .call (.scanStart i) fun _ => .call (.scanEnd i p) fun l => go C i (f l)

/-- Run a session on a connection of its own. -/
def run (C : Interface) (i : ℕ) (p : Session K ε (Verdict σ α)) :
    Prog (Request.interface K C) ε (Option α) :=
  .call (.connect i) fun _ => go C i p

end Session

/-- Run a session until its commit is not refused, at most `n` times. -/
def runOptimistic (i : ℕ) (body : Session K ε (Verdict σ α))
    (onExhausted : Prog (Request.interface K C) ε α) : ℕ → Prog (Request.interface K C) ε α
  | 0 => onExhausted
  | n + 1 => (Session.run C i body).bind fun
    | some a => .ret a
    | none => runOptimistic i body onExhausted n

/-! ## What a connection knows of the others -/

/-- How a connection is changed by a step that is not its own. -/
def Conn.Sees (c c' : Conn K) (db db' : σ) : Prop := (c' = c ∧ db' = db) ∨ c' = c.notice db db'

/-- What the others do, as the process `i` may rely on: the store changes within `R`, and
    the connection of `i` has noticed what it watches. -/
structure Shared.Moves (i : ℕ) (R : σ → σ → Prop) (s t : Shared K) : Prop where
  db : R s.db t.db
  watched : (t.conn i).watched = (s.conn i).watched
  dirty : (s.conn i).dirty → (t.conn i).dirty
  noticed : (t.conn i).dirty → (s.conn i).dirty ∨ (s.conn i).watched.Nonempty
  same : ¬ (t.conn i).dirty → ∀ k ∈ (s.conn i).watched, K.get t.db k = K.get s.db k
  /-- A key that is no longer kept was missing at some point. -/
  kept : ∀ k ∈ (s.conn i).kept, k ∈ (t.conn i).kept ∨ ∃ d, R s.db d ∧ R d t.db ∧ ¬ K.Present d k ∧
    (¬ (t.conn i).dirty → ∀ k' ∈ (s.conn i).watched, K.get d k' = K.get s.db k')

/-- What the process `i` does: the store changes within `G`, and the other connections
    notice. -/
structure Shared.Guar (i : ℕ) (G : σ → σ → Prop) (s t : Shared K) : Prop where
  db : G s.db t.db
  others : ∀ j, j ≠ i → (s.conn j).Sees (t.conn j) s.db t.db

section Moves

variable {R : σ → σ → Prop} {G : σ → σ → Prop} {i : ℕ} {s t u : Shared K}

theorem Shared.Moves.refl (hrefl : ∀ d, R d d) (s : Shared K) : s.Moves i R s :=
  ⟨hrefl _, rfl, id, .inl, fun _ _ _ => rfl, fun _ hk => .inl hk⟩

theorem Shared.Moves.trans (htrans : ∀ a b c, R a b → R b c → R a c) (h : s.Moves i R t)
    (h' : t.Moves i R u) : s.Moves i R u := by
  have hclean : ¬ (u.conn i).dirty → ¬ (t.conn i).dirty := fun hu ht => hu (h'.dirty ht)
  refine ⟨htrans _ _ _ h.db h'.db, h'.watched.trans h.watched, fun hs => h'.dirty (h.dirty hs),
    fun hu => ?_, fun hu k hk => ?_, fun k hk => ?_⟩
  · rcases h'.noticed hu with ht | hw
    · exact h.noticed ht
    · exact .inr (h.watched ▸ hw)
  · rw [h'.same hu k (h.watched ▸ hk), h.same (hclean hu) k hk]
  · rcases h.kept k hk with ht | ⟨d, hsd, hdt, hmiss, hsame⟩
    · rcases h'.kept k ht with hu | ⟨d, htd, hdu, hmiss, hsame⟩
      · exact .inl hu
      · refine .inr ⟨d, htrans _ _ _ h.db htd, hdu, hmiss, fun hu k' hk' => ?_⟩
        rw [hsame hu k' (h.watched ▸ hk'), h.same (hclean hu) k' hk']
    · exact .inr ⟨d, hsd, htrans _ _ _ hdt h'.db, hmiss, fun hu => hsame (hclean hu)⟩

theorem Shared.Moves.of_sees (hrefl : ∀ d, R d d) (hR : R s.db t.db)
    (h : (s.conn i).Sees (t.conn i) s.db t.db) : s.Moves i R t := by
  rcases h with ⟨hconn, hdb⟩ | hconn
  · exact ⟨hR, by rw [hconn], by rw [hconn]; exact id, by rw [hconn]; exact .inl,
      fun _ _ _ => by rw [hdb], fun k hk => .inl (by rwa [hconn])⟩
  · have hsame : ¬ (t.conn i).dirty → ∀ k ∈ (s.conn i).watched, K.get t.db k = K.get s.db k := by
      intro hclean k hk
      by_contra hne
      exact hclean (hconn ▸ .inr ⟨k, hk, hne⟩)
    have hnoticed : (t.conn i).dirty → (s.conn i).dirty ∨ (s.conn i).watched.Nonempty := by
      rw [hconn]
      rintro (hd | ⟨k, hk, -⟩)
      · exact .inl hd
      · exact .inr ⟨k, hk⟩
    refine ⟨hR, by rw [hconn]; rfl, fun hd => hconn ▸ .inl hd, hnoticed, hsame, fun k hk => ?_⟩
    by_cases hp : K.Present t.db k
    · exact .inl (hconn ▸ ⟨hk, hp⟩)
    · exact .inr ⟨t.db, hR, hrefl _, hp, hsame⟩

theorem Shared.Guar.moves (hrefl : ∀ d, R d d) (h : s.Guar i G t) {j : ℕ} (hj : j ≠ i)
    (hR : R s.db t.db) : s.Moves j R t :=
  .of_sees hrefl hR (h.others j hj)

theorem Shared.Guar.of_setConn (hrefl : ∀ d, G d d) (c : Conn K) : s.Guar i G (s.setConn i c) :=
  ⟨hrefl _, fun _ hj => .inl ⟨s.setConn_conn_ne c hj, rfl⟩⟩

theorem Shared.Guar.refl (hrefl : ∀ d, G d d) (s : Shared K) : s.Guar i G s :=
  ⟨hrefl _, fun _ _ => .inl ⟨rfl, rfl⟩⟩

end Moves

/-! ## Sessions as if they were atomic -/

variable {p : Session K ε α} {f : β → Session K ε α} {l : List β}

namespace Session

/-- The stores a session may read from when it commits in `db`: they come before `db`, and
    agree with it on what is watched. -/
structure Seen (K : Keyed σ) (A : σ → Prop) (R : σ → σ → Prop) (db : σ) (W : Set K.Key)
    (d : σ) : Prop where
  inv : A d
  later : R d db
  same : ∀ k ∈ W, K.get d k = K.get db k

variable {A : σ → Prop} {R : σ → σ → Prop} {db d : σ} {W W' : Set K.Key}

theorem Seen.mono (h : Seen K A R db W' d) (hW : W ⊆ W') : Seen K A R db W d :=
  ⟨h.inv, h.later, fun k hk => h.same k (hW hk)⟩

/-- The session, which watches `W`, fails or ends in `Q` when its reads are answered from the
    stores it may see before it commits in `db`. -/
def Ensures (A : σ → Prop) (R : σ → σ → Prop) (db : σ) :
    Set K.Key → Session K ε α → (Set K.Key → α → Prop) → Prop
  | W, .ret a, Q => Q W a
  | _, .fail _, _ => True
  | W, .call (.watch ks) f, Q => Ensures A R db (W ∪ {k | k ∈ ks}) (f ()) Q
  | W, .call (.read k) f, Q => ∀ d, Seen K A R db W d → Ensures A R db W (f (K.get d k)) Q
  | W, .call (.scan p) f, Q =>
    ∀ l : List K.Key, (∀ k, p k → (∀ d, Seen K A R db W d → K.Present d k) → k ∈ l) →
      Ensures A R db W (f l) Q

variable {Q Q' : Set K.Key → α → Prop}

theorem Ensures.watch_bind {ks : List K.Key} {f : Unit → Session K ε α}
    (h : Ensures A R db (W ∪ {k | k ∈ ks}) (f ()) Q) :
    Ensures A R db W (Prog.perform (I := Query.interface K) (.watch ks) >>= f) Q := h

/-- A watched key is read as it is when the session commits. -/
theorem Ensures.read_bind {k : K.Key} {f : K.Val k → Session K ε α} (hk : k ∈ W)
    (h : Ensures A R db W (f (K.get db k)) Q) :
    Ensures A R db W (Prog.perform (I := Query.interface K) (.read k) >>= f) Q := by
  intro d hd
  rw [hd.same k hk]
  exact h

/-- Another key is read as it was in some store before. -/
theorem Ensures.peek_bind {k : K.Key} {f : K.Val k → Session K ε α}
    (h : ∀ d, Seen K A R db W d → Ensures A R db W (f (K.get d k)) Q) :
    Ensures A R db W (Prog.perform (I := Query.interface K) (.read k) >>= f) Q := h

theorem Ensures.ite {c : Prop} [Decidable c] {q : Session K ε α} (hp : c → Ensures A R db W p Q)
    (hq : ¬ c → Ensures A R db W q Q) : Ensures A R db W (if c then p else q) Q := by
  split
  · exact hp ‹_›
  · exact hq ‹_›

/-- How a session may end: when with writes, then with some of which `T` is known. -/
def Commits (T : (σ → σ) → Prop) : Set K.Key → Verdict σ α → Prop
  | _, .commit m _ => T m
  | _, _ => True

theorem Ensures.mono (h : Ensures A R db W p Q) (hQ : ∀ W a, Q W a → Q' W a) :
    Ensures A R db W p Q' := by
  induction p generalizing W with
  | ret => exact hQ _ _ h
  | fail => trivial
  | call c f ih =>
    cases c with
    | watch ks => exact ih _ h
    | read k => exact fun d hd => ih _ (h d hd)
    | scan p => exact fun l hl => ih _ (h l hl)

theorem Ensures.bind {f : α → Session K ε β} {Q : Set K.Key → β → Prop}
    (h : Ensures A R db W p fun W a => Ensures A R db W (f a) Q) :
    Ensures A R db W (p.bind f) Q := by
  induction p generalizing W with
  | ret | fail => exact h
  | call c g ih =>
    cases c with
    | watch ks => exact ih _ h
    | read k => exact fun d hd => ih _ (h d hd)
    | scan p => exact fun l hl => ih _ (h l hl)

/-- A session goes on from what is known of its first part. -/
theorem Ensures.seq {f : α → Session K ε β} {P : Set K.Key → α → Prop} {Q : Set K.Key → β → Prop}
    (hp : Ensures A R db W p P) (hf : ∀ W a, P W a → Ensures A R db W (f a) Q) :
    Ensures A R db W (p.bind f) Q :=
  Ensures.bind (hp.mono hf)

variable {γ : Type} {Q : Set K.Key → γ → Prop} {g : List α → Session K ε γ}
  {P : β → α → Prop}

/-- A list is gone through: the keys that are watched satisfy `I` all the time, and what is known
    of each result is known of all of them. -/
theorem Ensures.forEach_keeping (I : Set K.Key → Prop) (hf : ∀ b ∈ l, ∀ V, I V →
      Ensures A R db V (f b) fun V' a => I V' ∧ P b a)
    (hg : ∀ as V, I V → List.Forall₂ P l as → Ensures A R db V (g as) Q) (hW : I W) :
    Ensures A R db W ((Prog.forEach l f).bind g) Q := by
  induction l generalizing g W with
  | nil => exact hg [] W hW .nil
  | cons b l ih =>
    rw [Prog.forEach, Prog.bind_assoc]
    refine Ensures.seq (hf b (List.mem_cons_self ..) W hW) fun V a h => ?_
    have htail := ih (g := fun as => g (a :: as)) (fun b hb => hf b (List.mem_cons_of_mem _ hb))
      (fun as U hU has => hg _ U hU (.cons h.2 has)) h.1
    show Ensures A R db _ (((Prog.forEach l f).bind fun as => .ret (a :: as)).bind g) Q
    rw [Prog.bind_assoc]
    exact htail

theorem Ensures.forEach (hf : ∀ b ∈ l, Ensures A R db W (f b) fun W' a => W' = W ∧ P b a)
    (hg : ∀ as, List.Forall₂ P l as → Ensures A R db W (g as) Q) :
    Ensures A R db W ((Prog.forEach l f).bind g) Q :=
  forEach_keeping (· = W) (fun b hb _ hV => hV ▸ hf b hb) (fun as _ hV h => hV ▸ hg as h) rfl

/-- What is checked of each member of a list holds of all of them. -/
theorem Ensures.forEach_check {P : β → Prop}
    (hf : ∀ b ∈ l, Ensures A R db W (f b) fun W' _ => W' = W ∧ P b)
    (hg : (∀ b ∈ l, P b) → ∀ as, Ensures A R db W (g as) Q) :
    Ensures A R db W ((Prog.forEach l f).bind g) Q := by
  refine .forEach (P := fun b _ => P b) hf fun as has => hg ?_ as
  clear hf hg
  induction has with
  | nil => simp
  | cons h _ ih => exact List.forall_mem_cons.2 ⟨h, ih⟩

/-- What is read for each member of a list is read for all of them. -/
theorem Ensures.forEach_map {F : β → α}
    (hf : ∀ b ∈ l, Ensures A R db W (f b) fun W' a => W' = W ∧ a = F b)
    (hg : Ensures A R db W (g (l.map F)) Q) : Ensures A R db W ((Prog.forEach l f).bind g) Q := by
  refine .forEach (P := fun b a => a = F b) hf fun as has => ?_
  suffices h : as = l.map F from h ▸ hg
  clear hf hg
  induction has with
  | nil => rfl
  | cons h _ ih => rw [h, ih, List.map_cons]

/-- Going through the list watches more and more keys. -/
theorem Ensures.forEach_watching
    (hf : ∀ b ∈ l, ∀ V, W ⊆ V → Ensures A R db V (f b) fun V' a => V ⊆ V' ∧ P b a)
    (hg : ∀ as V, W ⊆ V → List.Forall₂ P l as → Ensures A R db V (g as) Q) :
    Ensures A R db W ((Prog.forEach l f).bind g) Q :=
  forEach_keeping (W ⊆ ·)
    (fun b hb V hV => (hf b hb V hV).mono fun _ _ h => ⟨hV.trans h.1, h.2⟩) hg le_rfl

/-! ## Sessions among other processes -/

/-- What is known of the process `i` during a session: unless a watched key has changed,
    `F` holds of every store in which the session may commit. -/
structure Expects (A : σ → Prop) (R : σ → σ → Prop) (i : ℕ) (F : σ → Set K.Key → Prop)
    (s : Shared K) : Prop where
  inv : A s.db
  watching : (s.conn i).dirty → (s.conn i).watched.Nonempty
  clean : (s.conn i).dirty ∨
    ∀ db, Seen K A R db (s.conn i).watched s.db → F db (s.conn i).watched

/-- The keys that a scan will find, in addition: those that are there all the time. -/
def Keeps (A : σ → Prop) (R : σ → σ → Prop) (kept : Set K.Key) (db : σ) (W : Set K.Key) : Prop :=
  ∀ k, (∀ d, Seen K A R db W d → K.Present d k) → k ∈ kept

section Safe

variable {cmd : (c : C.Call) → σ → C.Ans c → σ → Prop} {G : σ → σ → Prop} {i : ℕ}
  {F : σ → Set K.Key → Prop} {s t : Shared K} {B : α → σ → Prop}

theorem Seen.of_moves (htrans : ∀ a b c, R a b → R b c → R a c) (hs : A s.db) (h : s.Moves i R t)
    (hclean : ¬ (t.conn i).dirty) (hdb : Seen K A R db (t.conn i).watched t.db) :
    Seen K A R db (s.conn i).watched s.db := by
  refine ⟨hs, htrans _ _ _ h.db hdb.later, fun k hk => ?_⟩
  rw [← h.same hclean k hk]
  exact hdb.same k (h.watched ▸ hk)

theorem Expects.stable (htrans : ∀ a b c, R a b → R b c → R a c) (hA : ∀ a b, A a → R a b → A b)
    (h : Expects A R i F s) (hst : s.Moves i R t) : Expects A R i F t := by
  have hwatching : (t.conn i).dirty → (t.conn i).watched.Nonempty := by
    rw [hst.watched]
    exact fun ht => (hst.noticed ht).elim h.watching id
  refine ⟨hA _ _ h.inv hst.db, hwatching, ?_⟩
  by_cases hd : (t.conn i).dirty
  · exact .inl hd
  · refine .inr fun db hdb => ?_
    have hF := h.clean.resolve_left (fun hs => hd (hst.dirty hs)) db
      (hdb.of_moves htrans h.inv hst hd)
    rwa [hst.watched]

/-- What is kept for a scan stays so while the others move. -/
theorem Keeps.stable (htrans : ∀ a b c, R a b → R b c → R a c) (hA : ∀ a b, A a → R a b → A b)
    (hs : A s.db) (hst : s.Moves i R t) (hclean : ¬ (t.conn i).dirty)
    (hdb : Seen K A R db (t.conn i).watched t.db)
    (h : Keeps A R (s.conn i).kept db (s.conn i).watched) :
    Keeps A R (t.conn i).kept db (t.conn i).watched := by
  intro k hk
  rw [hst.watched] at hk hdb
  rcases hst.kept k (h k hk) with ht | ⟨d, hsd, hdt, hmiss, hsame⟩
  · exact ht
  · refine absurd (hk d ⟨hA _ _ hs hsd, htrans _ _ _ hdt hdb.later, fun k' hk' => ?_⟩) hmiss
    rw [hsame hclean k' hk', ← hst.same hclean k' hk']
    exact hdb.same k' hk'

/-- How a session ends: with a result, once its writes are applied; with nothing, when it
    is to be run again; or with an error. -/
def Ends (A : σ → Prop) (B : α → σ → Prop) : Except ε (Option α) → Shared K → Prop
  | .ok (some a), s => B a s.db
  | _, s => A s.db

/-- The session does not watch anything. -/
def Unwatching : Session K ε α → Prop
  | .ret _ => True
  | .fail _ => True
  | .call (.watch _) _ => False
  | .call (.read _) f => ∀ v, Unwatching (f v)
  | .call (.scan _) f => ∀ l, Unwatching (f l)

theorem Unwatching.bind {f : α → Session K ε β} (hp : Unwatching p) (hf : ∀ a, Unwatching (f a)) :
    Unwatching (p.bind f) := by
  induction p with
  | ret a => exact hf a
  | fail e => trivial
  | call c g ih =>
    cases c with
    | watch ks => exact hp.elim
    | read k => exact fun v => ih v (hp v)
    | scan p => exact fun l => ih l (hp l)

theorem Unwatching.forEach (hf : ∀ b, Unwatching (f b)) :
    Unwatching (Prog.forEach l f) := by
  induction l with
  | nil => trivial
  | cons b l ih => exact (hf b).bind fun _ => ih.bind fun _ => trivial

/-- The session may return the result without a commit. -/
def MayLeave (a : α) : Session K ε (Verdict σ α) → Prop
  | .ret (.leave b) => b = a
  | .call _ f => ∃ x, MayLeave a (f x)
  | _ => False

variable {Q : σ → Set K.Key → Verdict σ α → Prop}

section

variable (hrefl : ∀ a, R a a) (htrans : ∀ a b c, R a b → R b c → R a c) (hG : ∀ a, G a a)
  (hA : ∀ a b, A a → R a b → A b) (hB : ∀ x a b, B x a → R a b → B x b)

include hrefl htrans hG hA hB

/-- The process `i` is safe during a session: it commits only in stores for which the
    session ensures `Q`. What the session returns without a commit is known of when it does not
    watch anything. -/
theorem go_safe {free : Prop} {L : α → Prop}
    (hleave : ∀ db a, A db → L a → (free → Q db ∅ (.leave a)) → B a db)
    (hcommit : ∀ db W m a, A db → Q db W (.commit m a) → G db (m db) ∧ B a (m db))
    (p : Session K ε (Verdict σ α)) (hfree : free → p.Unwatching) (hL : ∀ a, p.MayLeave a → L a) :
    (go C i p).SafeFrom (Request.Step cmd) (Shared.Moves i R) (Shared.Guar i G) (Ends A B)
      (fun s => Expects A R i (fun db W => p.Ensures A R db W (Q db)) s ∧
        (free → (s.conn i).watched = ∅)) := by
  have hstable : ∀ (F : σ → Set K.Key → Prop) s t,
      Expects A R i F s ∧ (free → (s.conn i).watched = ∅) → s.Moves i R t →
      Expects A R i F t ∧ (free → (t.conn i).watched = ∅) :=
    fun F s t h hst => ⟨h.1.stable htrans hA hst, fun hf => hst.watched.trans (h.2 hf)⟩
  induction p with
  | ret v =>
    cases v with
    | commit m a =>
      refine of_call (B := fun ok s => if ok then B a s.db else A s.db) (hstable _) ?_ ?_
      · rintro s ok t ⟨hs, -⟩ (⟨hclean, rfl, rfl⟩ | ⟨-, rfl, rfl⟩)
        · -- nothing watched has changed: the session may commit in this very store
          have hQ := hs.clean.resolve_left hclean s.db ⟨hs.inv, hrefl _, fun _ _ => rfl⟩
          obtain ⟨hg, hb⟩ := hcommit _ _ _ _ hs.inv hQ
          refine ⟨⟨hg, fun j hj => .inr ?_⟩, hb⟩
          rw [Shared.setConn_conn_ne _ _ hj, Shared.move_conn, Shared.setConn_db, Shared.move_db]
        · exact ⟨.of_setConn hG _, hs.inv⟩
      · intro ok
        refine ret (fun s t hs hst => ?_) fun s hs => ?_
        · cases ok with
          | true => exact hB _ _ _ hs hst.db
          | false => exact hA _ _ hs hst.db
        · cases ok with
          | true | false => exact hs
    | leave a =>
      refine .ret (hstable _) fun s hs => hleave _ a hs.1.inv (hL a rfl) fun hf => ?_
      -- a session that watches nothing has seen nothing change
      have hempty := hs.2 hf
      have hclean : ¬ (s.conn i).dirty := fun hd => (hs.1.watching hd).ne_empty hempty
      exact hempty ▸ hs.1.clean.resolve_left hclean s.db ⟨hs.1.inv, hrefl _, fun _ _ => rfl⟩
    | retry => exact .ret (hstable _) fun s hs => hs.1.inv
  | fail e => exact .fail (hstable _) fun s hs => hs.1.inv
  | call c f ih =>
    cases c with
    | watch ks =>
      refine of_call (hstable _) ?_ fun x =>
        ih x (fun hf => (hfree hf).elim) fun a h => hL a ⟨x, h⟩
      rintro s x t ⟨hs, -⟩ rfl
      refine ⟨.of_setConn hG _, ⟨hs.inv, ?_, ?_⟩, fun hf => (hfree hf).elim⟩
      · rw [Shared.setConn_conn_self]
        exact fun hd => (hs.watching hd).mono Set.subset_union_left
      · rw [Shared.setConn_conn_self]
        exact hs.clean.imp_right fun hF db hdb => hF db (hdb.mono Set.subset_union_left)
    | read k =>
      refine of_call (hstable _) ?_ fun v =>
        ih v (fun hf => hfree hf v) fun a h => hL a ⟨v, h⟩
      rintro s v t ⟨hs, hw⟩ ⟨rfl, rfl⟩
      exact ⟨.refl hG _, ⟨hs.inv, hs.watching,
        hs.clean.imp_right fun hF db hdb => hF db hdb t.db hdb⟩, hw⟩
    | scan p =>
      refine of_call (hstable _)
        (B := fun _ s => Expects A R i (fun db W => Keeps A R (s.conn i).kept db W ∧
          Ensures A R db W (.call (.scan p) f) (Q db)) s ∧ (free → (s.conn i).watched = ∅))
        ?_ fun _ => ?_
      · rintro s x t ⟨hs, hw⟩ rfl
        refine ⟨.of_setConn hG _, ⟨hs.inv, ?_, ?_⟩, ?_⟩
        · rw [Shared.setConn_conn_self]
          exact hs.watching
        · rw [Shared.setConn_conn_self]
          exact hs.clean.imp_right fun hF db hdb => ⟨fun k hk => hk s.db hdb, hF db hdb⟩
        · rw [Shared.setConn_conn_self]
          exact hw
      · refine of_call ?_ ?_ fun l =>
          ih l (fun hf => hfree hf l) fun a h => hL a ⟨l, h⟩
        · rintro s t ⟨hs, hw⟩ hst
          have hold := hs.stable htrans hA hst
          refine ⟨⟨hold.inv, hold.watching, ?_⟩, fun hf => hst.watched.trans (hw hf)⟩
          by_cases hd : (t.conn i).dirty
          · exact .inl hd
          · refine .inr fun db hdb => ?_
            obtain ⟨hk, hF⟩ := hs.clean.resolve_left (fun h => hd (hst.dirty h)) db
              (hdb.of_moves htrans hs.inv hst hd)
            exact ⟨hk.stable htrans hA hs.inv hst hd hdb, hst.watched ▸ hF⟩
        · rintro s l t ⟨hs, hw⟩ ⟨hl, rfl⟩
          refine ⟨.refl hG _, ⟨hs.inv, hs.watching, hs.clean.imp_right fun hF db hdb => ?_⟩, hw⟩
          obtain ⟨hk, hE⟩ := hF db hdb
          exact hE l fun k hp hpres => hl k (hk k hpres) hp

/-- A session on a connection of its own commits only in stores for which it ensures `Q`. -/
theorem run_safe {p : Session K ε (Verdict σ α)}
    (hleave : ∀ db a, A db → p.MayLeave a → (p.Unwatching → Q db ∅ (.leave a)) → B a db)
    (hcommit : ∀ db W m a, A db → Q db W (.commit m a) → G db (m db) ∧ B a (m db))
    (hp : ∀ db, A db → p.Ensures A R db ∅ (Q db)) :
    (run C i p).SafeFrom (Request.Step cmd) (Shared.Moves i R) (Shared.Guar i G) (Ends A B)
      (fun s => A s.db) := by
  refine of_call (fun s t hs hst => hA _ _ hs hst.db) ?_
    fun _ => go_safe hrefl htrans hG hA hB hleave hcommit p id fun _ h => h
  rintro s x t hs rfl
  refine ⟨.of_setConn hG _, ⟨hs, ?_, .inr fun db hdb => ?_⟩, fun _ => ?_⟩
  · rw [Shared.setConn_conn_self]
    exact False.elim
  · rw [Shared.setConn_conn_self]
    exact hp db (hA _ _ hdb.inv hdb.later)
  · rw [Shared.setConn_conn_self]
    rfl

end

end Safe

end Session

section Safe

variable {cmd : (c : C.Call) → σ → C.Ans c → σ → Prop} {A : σ → Prop} {B : α → σ → Prop}
  {R G : σ → σ → Prop} {i : ℕ}

/-- How a program ends: with a result of which `B` is known, or with an error of which `E` is
    known. -/
def Finishes (B : α → σ → Prop) (E : ε → σ → Prop) : Except ε α → σ → Prop
  | .ok a, db => B a db
  | .error e, db => E e db

/-- **Optimistic transactions.** When the session ensures `Q` as if it were atomic, the
    process commits only in stores with `Q`, whatever the others do meanwhile. -/
theorem runOptimistic_safe (hrefl : ∀ a, R a a) (htrans : ∀ a b c, R a b → R b c → R a c)
    (hG : ∀ a, G a a) (hA : ∀ a b, A a → R a b → A b) (hB : ∀ x a b, B x a → R a b → B x b)
    {Q : σ → Set K.Key → Verdict σ α → Prop} {body : Session K ε (Verdict σ α)}
    (hleave : ∀ db a, A db → body.MayLeave a → B a db)
    (hcommit : ∀ db W m a, A db → Q db W (.commit m a) → G db (m db) ∧ B a (m db))
    {E : ε → σ → Prop} (hE : ∀ e db, A db → E e db)
    (hbody : ∀ db, A db → body.Ensures A R db ∅ (Q db))
    {onExhausted : Prog (Request.interface K C) ε α}
    (hexhausted : onExhausted.SafeFrom (Request.Step cmd) (Shared.Moves i R) (Shared.Guar i G)
      (fun r s => Finishes B E r s.db) (fun s => A s.db)) (n : ℕ) :
    (runOptimistic i body onExhausted n).SafeFrom (Request.Step cmd) (Shared.Moves i R)
      (Shared.Guar i G) (fun r s => Finishes B E r s.db) (fun s => A s.db) := by
  induction n with
  | zero => exact hexhausted
  | succ n ih =>
    refine bind (Shared.Moves.refl hrefl)
      (B := fun r s => match r with | some a => B a s.db | none => A s.db) ?_ fun r => ?_
    · refine fun s hs => (Session.run_safe hrefl htrans hG hA hB
        (fun db a h ha _ => hleave db a h ha) hcommit hbody s hs).mono ?_
      intro r t h
      cases r with
      | ok r =>
        cases r with
        | some | none => exact h
      | error e => exact hE e t.db h
    · cases r with
      | some a => exact .ret (fun s t hs hst => hB _ _ _ hs hst.db) fun s hs => hs
      | none => exact ih

variable {Q : Except ε α → Shared K → Prop}

/-- A plain command is within the guarantee when what it does to the store is. -/
theorem Prog.SafeFrom.command {c : C.Call} {f : C.Ans c → Prog (Request.interface K C) ε α}
    {N : C.Ans c → σ → Prop}
    (hA : ∀ a b, A a → R a b → A b)
    (hc : ∀ db x db', A db → cmd c db x db' → G db db' ∧ N x db')
    (hf : ∀ x, (f x).SafeFrom (Request.Step cmd) (Shared.Moves i R) (Shared.Guar i G) Q
      (fun s => N x s.db)) :
    (Prog.call (I := Request.interface K C) (.command c) f).SafeFrom (Request.Step cmd)
      (Shared.Moves i R) (Shared.Guar i G) Q (fun s => A s.db) := by
  refine of_call (fun s t hs hst => hA _ _ hs hst.db) ?_ hf
  rintro s x t hs ⟨db', hcmd, rfl⟩
  obtain ⟨hg, ha⟩ := hc _ _ _ hs hcmd
  exact ⟨⟨hg, fun j _ => .inr rfl⟩, ha⟩

/-- A plain read changes nothing. -/
theorem Prog.SafeFrom.read {k : K.Key} {f : K.Val k → Prog (Request.interface K C) ε α}
    {N : K.Val k → σ → Prop}
    (hG : ∀ a, G a a) (hA : ∀ a b, A a → R a b → A b) (hc : ∀ db, A db → N (K.get db k) db)
    (hf : ∀ v, (f v).SafeFrom (Request.Step cmd) (Shared.Moves i R) (Shared.Guar i G) Q
      (fun s => N v s.db)) :
    (Prog.call (I := Request.interface K C) (.read k) f).SafeFrom (Request.Step cmd)
      (Shared.Moves i R) (Shared.Guar i G) Q (fun s => A s.db) := by
  refine of_call (fun s t hs hst => hA _ _ hs hst.db) ?_ hf
  rintro s v t hs ⟨rfl, rfl⟩
  exact ⟨.refl hG _, hc _ hs⟩

/-- Reads for each member of a list, one after the other. What is known of each result when it
    is read stays known while the others move. -/
theorem Prog.SafeFrom.forEach_read {k : β → K.Key} {g : (b : β) → K.Val (k b) → α} {γ : Type}
    {f : List α → Prog (Request.interface K C) ε γ} {Q : Except ε γ → Shared K → Prop}
    {P : β → α → σ → Prop} (hG : ∀ a, G a a) (hA : ∀ a b, A a → R a b → A b)
    (hP : ∀ b x d d', P b x d → R d d' → P b x d')
    (hread : ∀ b ∈ l, ∀ db, A db → P b (g b (K.get db (k b))) db)
    (hf : ∀ as, (f as).SafeFrom (Request.Step cmd) (Shared.Moves i R) (Shared.Guar i G) Q
      (fun s => A s.db ∧ List.Forall₂ (fun b x => P b x s.db) l as)) :
    ((Prog.forEach l fun b => Prog.call (I := Request.interface K C) (.read (k b))
      fun v => .ret (g b v)).bind f).SafeFrom (Request.Step cmd) (Shared.Moves i R)
        (Shared.Guar i G) Q (fun s => A s.db) := by
  induction l generalizing f A with
  | nil => exact (hf []).mono fun s hs => ⟨hs, .nil⟩
  | cons b l ih =>
    refine read (N := fun v db => A db ∧ P b (g b v) db) hG hA
      (fun db hdb => ⟨hdb, hread b (List.mem_cons_self ..) db hdb⟩) fun v => ?_
    show (((Prog.forEach l _).bind fun as => .ret (g b v :: as)).bind f).SafeFrom _ _ _ _ _
    rw [Prog.bind_assoc]
    refine ih (A := fun db => A db ∧ P b (g b v) db)
      (fun d d' h hd => ⟨hA d d' h.1 hd, hP b _ d d' h.2 hd⟩)
      (fun b' hb' db hdb => hread b' (List.mem_cons_of_mem _ hb') db hdb.1) fun as => ?_
    exact (hf (g b v :: as)).mono fun s hs => ⟨hs.1.1, .cons hs.1.2 hs.2⟩

end Safe

/-! ## The requests of a session -/

/-- The request neither writes nor is a command. -/
def Request.Quiet : Request K C → Prop
  | .exec _ _ => False
  | .command _ => False
  | _ => True

theorem Request.Quiet.db_eq {cmd : (c : C.Call) → σ → C.Ans c → σ → Prop} {q : Request K C}
    (hq : q.Quiet) {s t : Shared K} {x : (Request.interface K C).Ans q}
    (h : Request.Step cmd q s x t) : t.db = s.db := by
  cases q with
  | connect | watch => obtain rfl : t = _ := h; rfl
  | read k => obtain ⟨-, rfl⟩ := h; rfl
  | scanStart i => obtain rfl : t = _ := h; rfl
  | scanEnd i p => obtain ⟨-, rfl⟩ := h; rfl
  | exec | command => exact hq.elim

namespace Session

/-- Whatever is read, the session only commits writes of which `V` is known. -/
def CommitsOnly (V : (σ → σ) → Prop) : Session K ε (Verdict σ α) → Prop
  | .ret (.commit m _) => V m
  | .ret (.leave _) => True
  | .ret .retry => True
  | .fail _ => True
  | .call _ f => ∀ x, CommitsOnly V (f x)

theorem CommitsOnly.bind {V : (σ → σ) → Prop} (p : Session K ε β)
    {f : β → Session K ε (Verdict σ α)} (hf : ∀ b, CommitsOnly V (f b)) :
    CommitsOnly V (p.bind f) := by
  induction p with
  | ret b => exact hf b
  | fail e => trivial
  | call c g ih => exact fun x => ih x

variable {P : (Request.interface K C).Call → Prop} {i : ℕ} {p : Session K ε (Verdict σ α)}

section

variable (hP : ∀ q : Request K C, q.Quiet → P q) (h : p.CommitsOnly fun m => P (.exec i m))

include hP h

/-- A session makes the commits that it decides on, and otherwise only quiet requests. -/
theorem CommitsOnly.go_emits :
    (go C i p).Emits (fun _ _ => True) P := by
  induction p with
  | ret v =>
    cases v with
    | commit m a => exact ⟨h, fun _ _ => trivial⟩
    | leave | retry => trivial
  | fail e => trivial
  | call c f ih =>
    cases c with
    | watch | read => exact ⟨hP _ trivial, fun x _ => ih x (h x)⟩
    | scan p =>
      exact ⟨hP _ trivial, fun _ _ => ⟨hP _ trivial, fun x _ => ih x (h x)⟩⟩

theorem CommitsOnly.run_emits :
    (run C i p).Emits (fun _ _ => True) P :=
  ⟨hP _ trivial, fun _ _ => h.go_emits hP⟩

theorem CommitsOnly.runOptimistic_emits {onExhausted : Prog (Request.interface K C) ε α}
    (hex : onExhausted.Emits (fun _ _ => True) P) (n : ℕ) :
    (runOptimistic i p onExhausted n).Emits (fun _ _ => True) P := by
  induction n with
  | zero => exact hex
  | succ n ih =>
    refine (h.run_emits hP).bind fun r => ?_
    cases r with
    | some a => trivial
    | none => exact ih

end

end Session

/-! ## The errors of a session -/

section Errors

variable {E : ε → Prop}

theorem Session.go_failsWith {i : ℕ} {p : Session K ε (Verdict σ α)} (h : p.FailsWith E) :
    (Session.go C i p).FailsWith E := by
  induction p with
  | ret v =>
    cases v with
    | commit m a => exact fun ok => by cases ok <;> trivial
    | leave | retry => trivial
  | fail e => exact h
  | call c f ih =>
    cases c with
    | watch ks => exact fun x => ih x (h x)
    | read k => exact fun v => ih v (h v)
    | scan p => exact fun _ l => ih l (h l)

variable {call : (c : (Request.interface K C).Call) → Shared K → (Request.interface K C).Ans c →
  Shared K → Prop} {R : Request K C → Shared K → Shared K → Prop}

theorem runOptimistic_failsUnder {i : ℕ} {body : Session K ε (Verdict σ α)}
    (hbody : ∀ s, (Session.run C i body).FailsUnder call R E s) {e : ε} (he : E e) (n : ℕ)
    (s : Shared K) : (runOptimistic i body (.fail e) n).FailsUnder call R E s := by
  induction n generalizing s with
  | zero => exact he
  | succ n ih =>
    refine (hbody s).bind fun r t => ?_
    cases r with
    | some a => trivial
    | none => exact ih t

end Errors

/-! ## Undisturbed runs -/

/-- Run a program up to its first scan, while the others do nothing: what is left of it, the
    connection that is then known to be clean, and the store. The commands answer by `cmd`. -/
def Prog.alone (cmd : (c : C.Call) → σ → C.Ans c × σ) : Prog (Request.interface K C) ε α →
    Option ℕ → σ → Prog (Request.interface K C) ε α × Option ℕ × σ
  | .call (.connect i) f, _, db => (f ()).alone cmd (some i) db
  | .call (.watch _ _) f, ready, db => (f ()).alone cmd ready db
  | .call (.read k) f, ready, db => (f (K.get db k)).alone cmd ready db
  | .call (.exec i m) f, ready, db =>
    if ready = some i then (f true).alone cmd ready (m db) else (.call (.exec i m) f, ready, db)
  | .call (.command c) f, _, db => (f (cmd c db).1).alone cmd none (cmd c db).2
  | p, ready, db => (p, ready, db)

/-- The connection is clean, if it is known to be. -/
def Shared.Clean (s : Shared K) (ready : Option ℕ) : Prop :=
  ∀ i, ready = some i → ¬ (s.conn i).dirty

variable {step : (c : C.Call) → σ → C.Ans c → σ → Prop} {cmd : (c : C.Call) → σ → C.Ans c × σ}
  {ready : Option ℕ}

theorem Shared.Clean.setConn {s : Shared K} {i : ℕ} {c : Conn K} (h : s.Clean ready)
    (hc : c.dirty → (s.conn i).dirty) : (s.setConn i c).Clean ready := by
  intro j hj
  by_cases hji : j = i
  · rw [hji, Shared.setConn_conn_self]
    exact fun hd => h j hj (hji ▸ hc hd)
  · rw [Shared.setConn_conn_ne _ _ hji]
    exact h j hj

theorem Prog.alone_runs (hcmd : ∀ c db, step c db (cmd c db).1 (cmd c db).2)
    (p : Prog (Request.interface K C) ε α) (ready : Option ℕ) (s : Shared K) (h : s.Clean ready) :
    ∃ t, t.db = (p.alone cmd ready s.db).2.2 ∧ t.Clean (p.alone cmd ready s.db).2.1 ∧
      p.Runs (Request.Step step) s (p.alone cmd ready s.db).1 t := by
  induction p generalizing ready s with
  | ret | fail => exact ⟨s, rfl, h, .refl⟩
  | call c f ih =>
    cases c with
    | connect i =>
      obtain ⟨t, hdb, hclean, hruns⟩ := ih () (some i) (s.setConn i .fresh) fun j hj => by
        cases hj
        rw [Shared.setConn_conn_self]
        exact id
      exact ⟨t, hdb, hclean, .call rfl hruns⟩
    | watch i ks =>
      obtain ⟨t, hdb, hclean, hruns⟩ := ih () ready
        (s.setConn i { s.conn i with watched := (s.conn i).watched ∪ {k | k ∈ ks} }) (h.setConn id)
      exact ⟨t, hdb, hclean, .call rfl hruns⟩
    | read k =>
      obtain ⟨t, hdb, hclean, hruns⟩ := ih (K.get s.db k) ready s h
      exact ⟨t, hdb, hclean, .call ⟨rfl, rfl⟩ hruns⟩
    | scanStart | scanEnd => exact ⟨s, rfl, h, .refl⟩
    | exec i m =>
      rw [Prog.alone]
      split_ifs with hready
      · obtain ⟨t, hdb, hclean, hruns⟩ := ih true ready ((s.move (m s.db)).setConn i .fresh)
          fun j hj => by
            rw [hready, Option.some_inj] at hj
            rw [← hj, Shared.setConn_conn_self]
            exact id
        exact ⟨t, hdb, hclean, .call (.inl ⟨h i hready, rfl, rfl⟩) hruns⟩
      · exact ⟨s, rfl, h, .refl⟩
    | command c =>
      obtain ⟨t, hdb, hclean, hruns⟩ := ih (cmd c s.db).1 none (s.move (cmd c s.db).2)
        nofun
      exact ⟨t, hdb, hclean, .call ⟨_, hcmd c s.db, rfl⟩ hruns⟩

/-- A process that has made some calls may go on while the others do nothing. -/
theorem Prog.Runs.alone (hcmd : ∀ c db, step c db (cmd c db).1 (cmd c db).2)
    {p q : Prog (Request.interface K C) ε α} {s t : Shared K}
    (hr : p.Runs (Request.Step step) s q t) (h : t.Clean ready) :
    ∃ u, u.db = (q.alone cmd ready t.db).2.2 ∧ u.Clean (q.alone cmd ready t.db).2.1 ∧
      p.Runs (Request.Step step) s (q.alone cmd ready t.db).1 u := by
  obtain ⟨u, hdb, hclean, hruns⟩ := Prog.alone_runs hcmd q ready t h
  exact ⟨u, hdb, hclean, hr.trans hruns⟩

/-- A scan during which nothing happens may find just the keys that are there. -/
theorem Prog.Runs.scan {p : Prog (Request.interface K C) ε α} {i : ℕ} {g : K.Key → Bool}
    {f : List K.Key → Prog (Request.interface K C) ε α} {s t : Shared K}
    (hr : p.Runs (Request.Step step) s (.call (.scanStart i) fun _ => .call (.scanEnd i g) f) t)
    (h : t.Clean ready) {l : List K.Key} (hl : ∀ k, K.Present t.db k → g k → k ∈ l) :
    ∃ u, u.db = t.db ∧ u.Clean ready ∧ p.Runs (Request.Step step) s (f l) u := by
  let u := t.setConn i { t.conn i with kept := {k | K.Present t.db k} }
  refine ⟨u, rfl, h.setConn id, hr.trans (.call (x := ()) (t := u) rfl
    (.call (x := l) ⟨fun k hk hp => hl k ?_ hp, rfl⟩ .refl))⟩
  rwa [Shared.setConn_conn_self] at hk

end Wdl
