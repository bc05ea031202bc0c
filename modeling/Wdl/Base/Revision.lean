import Wdl.Base.Optimistic

/-!
# Stores with a revision

A store may count its changes: it has a revision, which a transaction increments together with
its writes. A transaction that only watches the revision then knows of every such change, without
watching what has changed.

* `Keyed.revised` is a store with a revision, which is one more key, and `Session.revise` is a
  session whose commits increment it. What the session ensures is the same
  (`Session.Ensures.revise`).
* `Request.On i` says that a request is made on the connection `i`. While the process `i` only
  reads, its connection knows of every change of a key that it watches (`Shared.Guards`).
-/

namespace Wdl

variable {σ ε α β : Type} {K : Keyed σ} {C : Interface}

/-- A store with a revision, and which of its keys exist. -/
abbrev Keyed.revised (K : Keyed σ) (present : σ → K.Key → Prop) : Keyed (σ × ℕ) where
  Key := Option K.Key
  Val
    | none => ℕ
    | some k => K.Val k
  get s
    | none => s.2
    | some k => K.get s.1 k
  Present s
    | none => True
    | some k => present s.1 k

namespace Session

/-- A session whose commits increment the revision. -/
def revise (present : σ → K.Key → Prop) :
    Session K ε (Verdict σ α) → Session (K.revised present) ε (Verdict (σ × ℕ) α)
  | .ret (.commit m a) => .ret (.commit (fun s => (m s.1, s.2 + 1)) a)
  | .ret (.leave a) => .ret (.leave a)
  | .ret .retry => .ret .retry
  | .fail e => .fail e
  | .call (.watch ks) f => .call (.watch (ks.map some)) fun x => revise present (f x)
  | .call (.read k) f => .call (.read (some k)) fun v => revise present (f v)
  | .call (.scan p) f => .call (.scan fun k => k.any p) fun l => revise present (f l.reduceOption)

/-- The session does not scan. -/
def Scanless : Session K ε α → Prop
  | .ret _ => True
  | .fail _ => True
  | .call (.watch _) f => ∀ x, Scanless (f x)
  | .call (.read _) f => ∀ v, Scanless (f v)
  | .call (.scan _) _ => False

variable {p : Session K ε α}

theorem Scanless.bind {f : α → Session K ε β} (hp : Scanless p)
    (hf : ∀ a, Scanless (f a)) : Scanless (p.bind f) := by
  induction p with
  | ret a => exact hf a
  | fail e => trivial
  | call c g ih =>
    cases c with
    | watch ks => exact fun x => ih x (hp x)
    | read k => exact fun v => ih v (hp v)
    | scan p => exact hp.elim

theorem Scanless.attempt {δ : Type} (hp : Scanless p) :
    Scanless (p.attempt : Session K δ (Except ε α)) := by
  induction p with
  | ret | fail => trivial
  | call c g ih =>
    cases c with
    | watch ks => exact fun x => ih x (hp x)
    | read k => exact fun v => ih v (hp v)
    | scan p => exact hp.elim

theorem Scanless.forEach {l : List β} {f : β → Session K ε α} (hf : ∀ b, Scanless (f b)) :
    Scanless (Prog.forEach l f) := by
  induction l with
  | nil => trivial
  | cons b l ih => exact (hf b).bind fun _ => ih.bind fun _ => trivial

/-- How a session ends whose commits increment the revision. -/
def Revised (Q : Set K.Key → Verdict σ α → Prop) : Verdict (σ × ℕ) α → Prop
  | .commit m a => ∃ W m', Q W (.commit m' a) ∧ m = fun s => (m' s.1, s.2 + 1)
  | .leave a => ∃ W, Q W (.leave a)
  | .retry => ∃ W, Q W .retry

variable {W : Set K.Key} {Q : Set K.Key → Verdict σ α → Prop}

/-- What is known of a session from what it watches is known of it with the revision. -/
theorem Ensures.revise {present : σ → K.Key → Prop} {A : σ × ℕ → Prop} {R : σ × ℕ → σ × ℕ → Prop}
    {s : σ × ℕ} {p : Session K ε (Verdict σ α)} (hscan : p.Scanless) {W' : Set (Option K.Key)}
    (hW : ∀ k ∈ W, some k ∈ W') (h : Ensures (fun _ => True) (fun _ _ => True) s.1 W p Q) :
    Ensures (K := K.revised present) A R s W' (p.revise present) fun _ r => Revised Q r := by
  induction p generalizing W W' with
  | ret v =>
    cases v with
    | commit m a => exact ⟨W, m, h, rfl⟩
    | leave | retry => exact ⟨W, h⟩
  | fail e => trivial
  | call c f ih =>
    cases c with
    | watch ks =>
      refine ih () (hscan ()) (fun k hk => ?_) h
      rcases hk with hk | hk
      · exact .inl (hW k hk)
      · exact .inr (List.mem_map_of_mem hk)
    | read k =>
      refine fun d hd => ih _ (hscan _) hW (h d.1 ⟨trivial, trivial, fun k hk => ?_⟩)
      exact hd.same (some k) (hW k hk)
    | scan p => exact hscan.elim

/-- What a session ensures holds of the writes that it can commit. -/
theorem Ensures.and_commitsOnly {A : σ → Prop} {R : σ → σ → Prop} {db : σ} {V : (σ → σ) → Prop}
    {p : Session K ε (Verdict σ α)} (h : Ensures A R db W p Q) (hV : p.CommitsOnly V) :
    Ensures A R db W p fun W v => Q W v ∧ ∀ m a, v = .commit m a → V m := by
  induction p generalizing W with
  | ret v =>
    refine ⟨h, fun m a heq => ?_⟩
    subst heq
    exact hV
  | fail e => trivial
  | call c f ih =>
    cases c with
    | watch ks => exact ih () h (hV ())
    | read k => exact fun d hd => ih _ (h d hd) (hV _)
    | scan p => exact fun l hl => ih _ (h l hl) (hV _)

theorem commitsOnly_revise (present : σ → K.Key → Prop) (p : Session K ε (Verdict σ α)) :
    (p.revise present).CommitsOnly fun m => ∀ s, (m s).2 = s.2 + 1 := by
  induction p with
  | ret v =>
    cases v with
    | commit m a => exact fun s => rfl
    | leave | retry => trivial
  | fail e => trivial
  | call c f ih =>
    cases c with
    | watch ks => exact fun x => ih x
    | read k => exact fun v => ih v
    | scan p => exact fun l => ih _

end Session

/-! ## Connections -/

/-- The request is made on the connection `i`, or on none. -/
def Request.On (i : ℕ) : Request K C → Prop
  | .connect j => j = i
  | .watch j _ => j = i
  | .read _ => True
  | .scanStart j => j = i
  | .scanEnd j _ => j = i
  | .exec j _ => j = i
  | .command _ => True

variable {cmd : (c : C.Call) → σ → C.Ans c → σ → Prop} {q : Request K C} {i : ℕ}
  {x : (Request.interface K C).Ans q}

theorem Request.On.sees {j : ℕ} (hq : q.On j) (hij : i ≠ j) {s t : Shared K}
    (h : Request.Step cmd q s x t) :
    (s.conn i).Sees (t.conn i) s.db t.db := by
  cases q with
  | connect l =>
    obtain rfl : l = j := hq
    obtain rfl : t = _ := h
    exact .inl ⟨Shared.setConn_conn_ne _ _ hij, rfl⟩
  | watch l ks =>
    obtain rfl : l = j := hq
    obtain rfl : t = _ := h
    exact .inl ⟨Shared.setConn_conn_ne _ _ hij, rfl⟩
  | read k =>
    obtain ⟨-, rfl⟩ := h
    exact .inl ⟨rfl, rfl⟩
  | scanStart l =>
    obtain rfl : l = j := hq
    obtain rfl : t = _ := h
    exact .inl ⟨Shared.setConn_conn_ne _ _ hij, rfl⟩
  | scanEnd l p =>
    obtain ⟨-, rfl⟩ := h
    exact .inl ⟨rfl, rfl⟩
  | exec l m =>
    obtain rfl : l = j := hq
    rcases h with ⟨-, -, rfl⟩ | ⟨-, -, rfl⟩
    · exact .inr (Shared.setConn_conn_ne _ _ hij)
    · exact .inl ⟨Shared.setConn_conn_ne _ _ hij, rfl⟩
  | command c =>
    obtain ⟨db', -, rfl⟩ := h
    exact .inr rfl

/-- The request belongs to a session that has begun and has not ended. -/
def Request.Within : Request K C → Prop
  | .watch _ _ => True
  | .read _ => True
  | .scanStart _ => True
  | .scanEnd _ _ => True
  | _ => False

namespace Session

theorem go_emits_on (i : ℕ) (p : Session K ε (Verdict σ α)) :
    (go C i p).Emits (fun _ _ => True) (Request.On i) := by
  induction p with
  | ret v =>
    cases v with
    | commit m a => exact ⟨rfl, fun _ _ => trivial⟩
    | leave | retry => trivial
  | fail e => trivial
  | call c f ih =>
    cases c with
    | watch ks => exact ⟨rfl, fun x _ => ih x⟩
    | read k => exact ⟨trivial, fun x _ => ih x⟩
    | scan p => exact ⟨rfl, fun _ _ => ⟨rfl, fun x _ => ih x⟩⟩

end Session

/-- A process that runs a session does so on its own connection. -/
theorem runOptimistic_emits_on (i : ℕ) (p : Session K ε (Verdict σ α))
    {onExhausted : Prog (Request.interface K C) ε α}
    (hex : onExhausted.Emits (fun _ _ => True) (Request.On i)) (n : ℕ) :
    (runOptimistic i p onExhausted n).Emits (fun _ _ => True) (Request.On i) := by
  induction n with
  | zero => exact hex
  | succ n ih =>
    refine Prog.Emits.bind ⟨rfl, fun _ _ => Session.go_emits_on i p⟩ fun r => ?_
    cases r with
    | some a => trivial
    | none => exact ih

/-- The connection `i` watches a key, and would know if its value were no longer `v`. -/
def Shared.Guards (s : Shared K) (i : ℕ) (k : K.Key) (v : K.Val k) : Prop :=
  k ∈ (s.conn i).watched ∧ (¬ (s.conn i).dirty → K.get s.db k = v)

variable {k : K.Key} {v : K.Val k}

theorem Shared.Guards.of_sees {s t : Shared K} (h : s.Guards i k v)
    (hst : (s.conn i).Sees (t.conn i) s.db t.db) : t.Guards i k v := by
  rcases hst with ⟨hconn, hdb⟩ | hconn
  · rw [Guards, hconn, hdb]
    exact h
  · rw [Guards, hconn]
    refine ⟨h.1, fun hclean => ?_⟩
    obtain ⟨hd, hsame⟩ := not_or.1 hclean
    by_contra hne
    exact hsame ⟨k, h.1, fun heq => hne (heq.trans (h.2 hd))⟩

theorem Shared.Guards.of_within {s t : Shared K} (h : s.Guards i k v) (hq : q.On i) (hw : q.Within)
    (hst : Request.Step cmd q s x t) : t.Guards i k v := by
  cases q with
  | connect l => exact hw.elim
  | watch l ks =>
    obtain rfl : l = i := hq
    obtain rfl : t = _ := hst
    rw [Guards, Shared.setConn_conn_self]
    exact ⟨.inl h.1, h.2⟩
  | read k' =>
    obtain ⟨-, rfl⟩ := hst
    exact h
  | scanStart l =>
    obtain rfl : l = i := hq
    obtain rfl : t = _ := hst
    rw [Guards, Shared.setConn_conn_self]
    exact h
  | scanEnd l p =>
    obtain ⟨-, rfl⟩ := hst
    exact h
  | exec | command => exact hw.elim

/-- A commit is refused when a key that is guarded has changed. -/
theorem Shared.Guards.exec_refused {s t : Shared K} (h : s.Guards i k v) (hne : K.get s.db k ≠ v)
    {m : σ → σ} {ok : Bool} (hst : Request.Step (C := C) cmd (.exec i m) s ok t) :
    ok = false ∧ t.db = s.db := by
  rcases hst with ⟨hclean, -, -⟩ | ⟨-, rfl, rfl⟩
  · exact absurd (h.2 hclean) hne
  · exact ⟨rfl, rfl⟩

end Wdl
