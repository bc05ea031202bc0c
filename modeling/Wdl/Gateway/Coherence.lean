import Wdl.Base.Machine
import Wdl.Gateway.Calls

/-!
# The routing caches are coherent

The gateway as a machine: the calls of both designs, the subscriber that receives the
invalidations, and Redis, which changes at any time. A change is committed together with the
messages it publishes; they arrive in order, behind the acknowledgement of the subscription,
as long as the connection lasts, and are lost with it.

Every event takes one unit of time, and the machine remembers what Redis held at each time,
and when which notice of the subscriber was processed. So it can be said of a view that it
comes from reads that began after some notice: every view that is answered or kept in a cache is
fresh (`Side.Coherent`), in every run (`routing_caches_coherent`).
-/

namespace Wdl.Gateway

open Option List

/-! ## The subscriber -/

/-- The channels that the gateway subscribes to. -/
inductive Channel
  | routes | routesFlush | patterns | sessionPolicy | workerDelete
  deriving DecidableEq, Repr

/-- A message, and the time at which its change was committed. -/
structure Message where
  channel : Channel
  payload : String
  committed : ℕ
  deriving DecidableEq, Repr

/-- What comes over the connection of the subscriber. -/
inductive Item
  /-- Redis has registered the subscription. -/
  | ack
  | message (m : Message)
  deriving DecidableEq, Repr

/-- What the subscriber tells the gateway. -/
inductive Notice
  | connect
  | disconnect
  | message (m : Message)
  deriving DecidableEq, Repr

/-- The notices that invalidate the routes of a namespace. -/
def Notice.coversRoutes (key : String) : Notice → Prop
  | .connect => True
  | .disconnect => True
  | .message m =>
    m.channel = .routesFlush ∨ (m.channel = .routes ∧ m.payload = key ∧ routes.isKey key)

/-- The notices that invalidate the patterns of a host. -/
def Notice.coversPatterns (key : String) : Notice → Prop
  | .connect => True
  | .disconnect => True
  | .message m => m.channel = .patterns ∧ (m.payload = "*" ∨ (m.payload = key ∧ patterns.isKey key))

/-! ## The machine -/

/-- The gateway and Redis. -/
structure State where
  now : ℕ := 0
  /-- What Redis held at each time so far. -/
  redis : ℕ → Redis
  routes : Side routes := {}
  patterns : Side patterns := {}
  /-- What is on its way to the subscriber, while it has a connection. -/
  stream : Option (List Item) := none
  subscriberConnected : Bool := false
  /-- The notices processed so far, with their times. -/
  processed : List (Notice × ℕ) := []

namespace State

/-- The payload of an invalidation is ignored if it is not a key. -/
def invalidateKey {V : Type} {D : Design V} (s : Side D) (payload : String) : Side D :=
  if D.isKey payload then s.invalidate payload else s

/-- A notice was processed. -/
def note (g : State) (n : Notice) : State :=
  { g with processed := g.processed ++ [(n, g.now)] }

/-- Both caches are reset. -/
def clear (g : State) : State :=
  { g with routes := g.routes.clearState, patterns := g.patterns.clearState }

def onConnect (g : State) : State :=
  { g.clear with subscriberConnected := true }.note .connect

def onDisconnect (g : State) : State :=
  if g.subscriberConnected then
    { g.clear with subscriberConnected := false }.note .disconnect
  else g

def onMessage (g : State) (m : Message) : State :=
  match m.channel with
  | .sessionPolicy => g
  | .workerDelete => g
  | .patterns =>
    if m.payload = "*" then { g with patterns := g.patterns.clearState }
    else { g with patterns := invalidateKey g.patterns m.payload }
  | .routesFlush => { g with routes := g.routes.clearState }
  | .routes => { g with routes := invalidateKey g.routes m.payload }

/-- The subscriber reads what has arrived. -/
def receive (g : State) : Item → State
  | .ack => g.onConnect
  | .message m => (g.onMessage m).note (.message m)

/-- An event ends, with what Redis holds then. -/
def tick (g : State) (redis : Redis) : State :=
  { g with now := g.now + 1, redis := Function.update g.redis (g.now + 1) redis }

/-- The messages of a change. -/
def publish (g : State) (published : List (Channel × String)) : State :=
  { g with
    stream := g.stream.map (· ++ published.map fun p => .message ⟨p.1, p.2, g.now⟩) }

end State

/-- What can happen. -/
inductive Event
  | routes (op : Op)
  | patterns (op : Op)
  /-- A change of Redis is committed, with the messages it publishes. -/
  | commit (redis : Redis) (published : List (Channel × String))
  | subscribe
  | deliver
  | disconnect

namespace State

def next (g : State) : Event → Option State
  | .routes op =>
    (g.routes.step (g.redis g.now) g.now op).map fun s =>
      { g with routes := s }.tick (g.redis g.now)
  | .patterns op =>
    (g.patterns.step (g.redis g.now) g.now op).map fun s =>
      { g with patterns := s }.tick (g.redis g.now)
  | .commit redis published => some ((g.publish published).tick redis)
  | .subscribe =>
    if g.stream = none then some ({ g with stream := some [.ack] }.tick (g.redis g.now)) else none
  | .deliver =>
    match g.stream with
    | some (item :: items) =>
      some (({ g with stream := some items }.receive item).tick (g.redis g.now))
    | _ => none
  | .disconnect =>
    if g.stream = none then none
    else some ({ g.onDisconnect with stream := none }.tick (g.redis g.now))

/-- The gateway starts with nothing, next to a Redis that may hold anything. -/
def machine (redis : Redis) : Machine State Event where
  start := { redis := fun _ => redis }
  next := next

/-! ## The invariant -/

/-- A key was invalidated by a notice that was processed at a time. -/
def Invalidated (covers : String → Notice → Prop) (g : State) (key : String) (t : ℕ) : Prop :=
  ∃ n, (n, t) ∈ g.processed ∧ covers key n

/-- What holds before an event at `now`, or at the end of the event before it. -/
structure InvAt (g : State) (now : ℕ) : Prop where
  routes : g.routes.Inv g.redis (g.Invalidated Notice.coversRoutes) now
  patterns : g.patterns.Inv g.redis (g.Invalidated Notice.coversPatterns) now
  /-- The messages on their way were committed before. -/
  stamped : ∀ items, g.stream = some items → ∀ m, Item.message m ∈ items → m.committed < now
  /-- Messages were processed after their change was committed. -/
  ordered : ∀ m t, (Notice.message m, t) ∈ g.processed → m.committed < t

variable {g : State} {covers : String → Notice → Prop} {key : String} {t : ℕ}

theorem invalidated_note {n : Notice} (h : (g.note n).Invalidated covers key t) :
    g.Invalidated covers key t ∨ (covers key n ∧ t = g.now) := by
  obtain ⟨n', hn', hcovers⟩ := h
  rcases mem_append.mp hn' with hold | hnew
  · exact .inl ⟨n', hold, hcovers⟩
  · rw [mem_singleton, Prod.mk.injEq] at hnew
    exact .inr ⟨hnew.1 ▸ hcovers, hnew.2⟩

theorem InvAt.later (h : g.InvAt g.now) : g.InvAt (g.now + 1) where
  routes := h.routes.later
  patterns := h.patterns.later
  stamped items hitems m hm := (h.stamped items hitems m hm).trans (Nat.lt_succ_self _)
  ordered := h.ordered

theorem InvAt.tick (h : g.InvAt (g.now + 1)) (redis : Redis) :
    (g.tick redis).InvAt (g.tick redis).now := by
  have hredis : ∀ t < g.now + 1, (g.tick redis).redis t = g.redis t := by
    intro t ht
    exact dif_neg ht.ne
  exact ⟨h.routes.mono le_rfl hredis fun _ _ ht => ht,
    h.patterns.mono le_rfl hredis fun _ _ ht => ht, h.stamped, h.ordered⟩

theorem ordered_note (h : g.InvAt g.now) {n : Notice}
    (hn : ∀ m, n = .message m → m.committed < g.now) :
    ∀ m t, (Notice.message m, t) ∈ (g.note n).processed → m.committed < t := by
  intro m t hm
  rcases mem_append.mp hm with hold | hnew
  · exact h.ordered m t hold
  · rw [mem_singleton, Prod.mk.injEq] at hnew
    exact hnew.2 ▸ hn m hnew.1.symm

/-- Both caches are reset when the subscriber connects or loses its connection. -/
theorem InvAt.clear (h : g.InvAt g.now) {n : Notice} (hn : ∀ m, n ≠ .message m)
    (connected : Bool) :
    ({ g.clear with subscriberConnected := connected }.note n).InvAt (g.now + 1) where
  routes := h.routes.clearState fun _ _ ht => (invalidated_note ht).imp_right And.right
  patterns := h.patterns.clearState fun _ _ ht => (invalidated_note ht).imp_right And.right
  stamped := h.later.stamped
  ordered := ordered_note h fun m hm => absurd hm (hn m)

theorem InvAt.onDisconnect (h : g.InvAt g.now) : g.onDisconnect.InvAt (g.now + 1) := by
  unfold State.onDisconnect
  split
  case isTrue => exact h.clear (by simp) false
  case isFalse => exact h.later

end State

variable {redis : ℕ → Redis}

/-- An invalidation of a key, or of a text that is none. -/
theorem Side.Inv.invalidateKey {V : Type} {D : Design V}
    {invalidated invalidated' : String → ℕ → Prop} {now : ℕ} {s : Side D} {payload : String}
    (h : s.Inv redis invalidated now)
    (hinv : ∀ k t, invalidated' k t → invalidated k t ∨
      ((payload = k ∧ D.isKey k = true) ∧ t = now)) :
    (State.invalidateKey s payload).Inv redis invalidated' (now + 1) := by
  unfold State.invalidateKey
  split
  case isTrue =>
    refine h.invalidate fun k t ht => (hinv k t ht).imp_right fun hnew => ?_
    exact ⟨hnew.1.1.symm, hnew.2⟩
  case isFalse hkey =>
    refine h.mono (Nat.le_succ now) (fun _ _ => rfl) fun k t ht => ?_
    refine (hinv k t ht).resolve_right fun hnew => hkey ?_
    rw [hnew.1.1]
    exact hnew.1.2

namespace State

variable {g : State}

/-- The notice of a message that does not cover a key of a design leaves its side as it is. -/
theorem inv_of_not_covers {V : Type} {D : Design V} {s : Side D}
    {covers : String → Notice → Prop} {n : Notice}
    (h : s.Inv g.redis (g.Invalidated covers) g.now) (hn : ∀ key, ¬ covers key n) :
    s.Inv g.redis ((g.note n).Invalidated covers) (g.now + 1) :=
  h.mono (Nat.le_succ _) (fun _ _ => rfl) fun key _ ht =>
    (invalidated_note ht).resolve_right fun hnew => hn key hnew.1

variable {m : Message}

theorem not_coversRoutes (hr : m.channel ≠ .routes) (hf : m.channel ≠ .routesFlush)
    (key : String) : ¬ Notice.coversRoutes key (.message m) := by
  rintro (hflush | ⟨hroutes, -⟩)
  · exact hf hflush
  · exact hr hroutes

theorem InvAt.onMessage (h : g.InvAt g.now) (hm : m.committed < g.now) :
    ((g.onMessage m).note (.message m)).InvAt (g.now + 1) := by
  have hordered := ordered_note (n := .message m) h fun m' hm' => Notice.message.inj hm' ▸ hm
  have hroutes : m.channel ≠ .routes → m.channel ≠ .routesFlush →
      g.routes.Inv g.redis ((g.note (.message m)).Invalidated Notice.coversRoutes) (g.now + 1) :=
    fun hr hf => inv_of_not_covers h.routes (not_coversRoutes hr hf)
  have hpatterns : m.channel ≠ .patterns →
      g.patterns.Inv g.redis ((g.note (.message m)).Invalidated Notice.coversPatterns)
        (g.now + 1) :=
    fun hp => inv_of_not_covers h.patterns fun _ hcovers => hp hcovers.1
  unfold State.onMessage
  split
  case h_1 hc =>
    exact ⟨hroutes (by simp [hc]) (by simp [hc]), hpatterns (by simp [hc]),
      h.later.stamped, hordered⟩
  case h_2 hc =>
    exact ⟨hroutes (by simp [hc]) (by simp [hc]), hpatterns (by simp [hc]),
      h.later.stamped, hordered⟩
  case h_3 hc =>
    split
    case isTrue =>
      refine ⟨hroutes (by simp [hc]) (by simp [hc]), ?_, h.later.stamped, hordered⟩
      exact h.patterns.clearState fun _ _ ht => (invalidated_note ht).imp_right And.right
    case isFalse hstar =>
      refine ⟨hroutes (by simp [hc]) (by simp [hc]), ?_, h.later.stamped, hordered⟩
      refine h.patterns.invalidateKey fun key t ht => (invalidated_note ht).imp_right fun hnew => ?_
      exact ⟨hnew.1.2.resolve_left hstar, hnew.2⟩
  case h_4 hc =>
    refine ⟨?_, hpatterns (by simp [hc]), h.later.stamped, hordered⟩
    exact h.routes.clearState fun _ _ ht => (invalidated_note ht).imp_right And.right
  case h_5 hc =>
    refine ⟨?_, hpatterns (by simp [hc]), h.later.stamped, hordered⟩
    refine h.routes.invalidateKey fun key t ht => (invalidated_note ht).imp_right fun hnew => ?_
    have hflush : m.channel ≠ .routesFlush := by simp [hc]
    exact ⟨(hnew.1.resolve_left hflush).2, hnew.2⟩

theorem now_onMessage (g : State) (m : Message) : (g.onMessage m).now = g.now := by
  unfold State.onMessage
  split
  case h_3 => split <;> rfl
  all_goals rfl

theorem now_receive (g : State) (item : Item) : (g.receive item).now = g.now := by
  cases item with
  | ack => rfl
  | message m => exact now_onMessage g m

theorem now_onDisconnect (g : State) : g.onDisconnect.now = g.now := by
  unfold State.onDisconnect
  split <;> rfl

theorem InvAt.publish (h : g.InvAt g.now) (published : List (Channel × String)) :
    (g.publish published).InvAt (g.now + 1) := by
  refine ⟨h.later.routes, h.later.patterns, ?_, h.ordered⟩
  intro items hitems m hm
  obtain ⟨items', hitems', rfl⟩ := map_eq_some_iff.mp hitems
  rcases mem_append.mp hm with hold | hnew
  · exact h.later.stamped items' hitems' m hold
  · obtain ⟨p, -, hp⟩ := mem_map.mp hnew
    rw [← Item.message.inj hp]
    exact Nat.lt_succ_self _

theorem InvAt.receive (h : g.InvAt g.now) {item : Item}
    (hitem : ∀ m, item = .message m → m.committed < g.now) :
    (g.receive item).InvAt ((g.receive item).now + 1) := by
  rw [now_receive]
  cases item with
  | ack => exact h.clear (by simp) true
  | message m => exact h.onMessage (hitem m rfl)

theorem InvAt.next (h : g.InvAt g.now) {e : Event} {g' : State} (hnext : g.next e = some g') :
    g'.InvAt g'.now := by
  cases e with
  | routes op =>
    obtain ⟨s, hs, rfl⟩ := map_eq_some_iff.mp hnext
    have hside : { g with routes := s }.InvAt (g.now + 1) :=
      { h.later with routes := h.routes.step hs }
    exact hside.tick _
  | patterns op =>
    obtain ⟨s, hs, rfl⟩ := map_eq_some_iff.mp hnext
    have hside : { g with patterns := s }.InvAt (g.now + 1) :=
      { h.later with patterns := h.patterns.step hs }
    exact hside.tick _
  | commit redis published => exact Option.some.inj hnext ▸ (h.publish published).tick redis
  | subscribe =>
    simp only [State.next] at hnext
    split at hnext
    case isTrue =>
      have hack : { g with stream := some [.ack] }.InvAt (g.now + 1) :=
        { h.later with
          stamped := fun items hitems m hm => by
            rw [← Option.some.inj hitems, mem_singleton] at hm
            exact Item.noConfusion hm }
      exact Option.some.inj hnext ▸ hack.tick _
    case isFalse => cases hnext
  | deliver =>
    simp only [State.next] at hnext
    split at hnext
    case h_1 item items hstream =>
      have hrest : { g with stream := some items }.InvAt g.now :=
        { h with
          stamped := fun items' hitems m hm => by
            rw [← Option.some.inj hitems] at hm
            exact h.stamped _ hstream m (mem_cons_of_mem _ hm) }
      have hreceive := hrest.receive fun m hm =>
        h.stamped _ hstream m (hm ▸ mem_cons_self)
      exact Option.some.inj hnext ▸ hreceive.tick _
    case h_2 => cases hnext
  | disconnect =>
    simp only [State.next] at hnext
    split at hnext
    case isTrue => cases hnext
    case isFalse =>
      have hlost : { g.onDisconnect with stream := none }.InvAt (g.onDisconnect.now + 1) :=
        { now_onDisconnect g ▸ h.onDisconnect with
          stamped := fun items hitems => absurd hitems (some_ne_none _).symm }
      exact Option.some.inj hnext ▸ hlost.tick _

/-- The run lemma. -/
theorem inv_of_run {redis : Redis} {es : List Event} (h : (machine redis).run es = some g) :
    g.InvAt g.now := by
  refine Machine.run_induction (P := fun _ g => g.InvAt g.now) ?_ ?_ es g h
  · -- nothing was processed yet
    have hnone : ∀ covers key t,
        ((machine redis).start).Invalidated covers key t → False := by
      rintro covers key t ⟨n, hn, -⟩
      exact absurd hn not_mem_nil
    exact ⟨(Side.Inv.empty _).mono le_rfl (fun _ _ => rfl) (hnone _),
      (Side.Inv.empty _).mono le_rfl (fun _ _ => rfl) (hnone _),
      fun _ hitems => absurd hitems (some_ne_none _).symm,
      fun _ _ hm => absurd hm not_mem_nil⟩
  · intro es g e g' _ hinv hnext
    exact hinv.next hnext

end State

/-! ## Coherence -/

section Coherence

variable {V : Type} {D : Design V}

/-- The answers are fresh when they are given, and what is kept is fresh at any time. -/
structure Side.Coherent (redis : ℕ → Redis) (invalidated : String → ℕ → Prop) (now : ℕ)
    (s : Side D) : Prop where
  answered : ∀ a ∈ s.answers, a.Fresh D redis invalidated
  stored : ∀ e ∈ s.cache.entries, FreshView D redis invalidated now e.1 e.2

/-- Once the message of a change was processed, what is answered for the keys it is about comes
    from reads after the change was committed. -/
def Side.AnswersCommitted (redis : ℕ → Redis) (covers : String → Notice → Prop)
    (processed : List (Notice × ℕ)) (s : Side D) : Prop :=
  ∀ m t, (Notice.message m, t) ∈ processed →
    ∀ a ∈ s.answers, covers a.key (.message m) → t < a.time →
      (∀ view cacheHit, a.outcome = .known view cacheHit →
        ViewSince D redis m.committed a.time a.key view) ∧
      (a.outcome = .unknown → AbsentSince D redis m.committed a.time a.key)

variable {s : Side D}

theorem Side.Inv.coherent {invalidated : String → ℕ → Prop} {now : ℕ}
    (h : s.Inv redis invalidated now) : s.Coherent redis invalidated now :=
  ⟨fun a ha => (h.answered a ha).2, h.cached⟩

variable {key : String}

theorem ViewSince.earlier {began began' now : ℕ} {view : V}
    (h : ViewSince D redis began now key view) (hle : began' ≤ began) :
    ViewSince D redis began' now key view := by
  obtain ⟨replies, hreads, hview⟩ := h
  refine ⟨replies, hreads.imp fun command reply hr => ?_, hview⟩
  obtain ⟨t, hbegan, hr⟩ := hr
  exact ⟨t, hle.trans_lt hbegan, hr⟩

theorem AbsentSince.earlier {began began' now : ℕ} (h : AbsentSince D redis began now key)
    (hle : began' ≤ began) : AbsentSince D redis began' now key := by
  obtain ⟨t, hbegan, habsent⟩ := h
  exact ⟨t, hle.trans_lt hbegan, habsent⟩

/-- What was read after a message was processed was read after its change was committed. -/
theorem Side.Coherent.answersCommitted {g : State} {covers : String → Notice → Prop}
    (h : s.Coherent g.redis (g.Invalidated covers) g.now)
    (hordered : ∀ m t, (Notice.message m, t) ∈ g.processed → m.committed < t) :
    s.AnswersCommitted g.redis covers g.processed := by
  intro m t hm a ha hcovers ht
  have hinvalidated : g.Invalidated covers a.key t := ⟨_, hm, hcovers⟩
  refine ⟨fun view cacheHit ho => ?_, fun ho => ?_⟩
  · obtain ⟨began, hsettled, hview⟩ := (h.answered a ha).known view cacheHit ho
    exact hview.earlier ((hordered m t hm).trans (hsettled t hinvalidated ht)).le
  · obtain ⟨began, hsettled, habsent⟩ := (h.answered a ha).unknown ho
    exact habsent.earlier ((hordered m t hm).trans (hsettled t hinvalidated ht)).le

end Coherence

/-- Whatever Redis holds in the beginning, and whatever happens: the routing caches are coherent. -/
theorem routing_caches_coherent (redis : Redis) (es : List Event) (g : State)
    (h : (State.machine redis).run es = some g) :
    (g.routes.Coherent g.redis (g.Invalidated Notice.coversRoutes) g.now ∧
      g.routes.AnswersCommitted g.redis Notice.coversRoutes g.processed) ∧
    (g.patterns.Coherent g.redis (g.Invalidated Notice.coversPatterns) g.now ∧
      g.patterns.AnswersCommitted g.redis Notice.coversPatterns g.processed) := by
  have hinv := State.inv_of_run h
  have hroutes := hinv.routes.coherent
  have hpatterns := hinv.patterns.coherent
  exact ⟨⟨hroutes, hroutes.answersCommitted hinv.ordered⟩,
    hpatterns, hpatterns.answersCommitted hinv.ordered⟩

/-! ## A run -/

/-- A Redis with one namespace and one route. -/
def oneRoute (version : String) : Redis where
  sets key := if key = namespacesKey then ["acme"] else []
  hashes key := if key = routesKey "acme" then [("w", version)] else []

/-- A promotion is committed after the old route was read, and its message arrives before the
    call goes on. -/
def promoted : List Event :=
  [.subscribe, .deliver, .routes (.resolve 0 "acme"), .routes (.serve 0), .routes (.serve 0),
    .commit (oneRoute "v2") [(.routes, "acme")], .routes (.serve 0), .deliver,
    .routes (.resume 0), .routes (.serve 0), .routes (.serve 0), .routes (.serve 0),
    .routes (.resume 0)]

/-- The call reads again, and answers with the promoted version. -/
theorem routing_caches_coherent_promoted :
    ∃ g, (State.machine (oneRoute "v1")).run promoted = some g ∧
      g.routes.answers = [⟨"acme", .known [("w", "v2")] false, 12⟩] ∧
      g.routes.Coherent g.redis (g.Invalidated Notice.coversRoutes) g.now := by
  refine ⟨_, rfl, rfl, ?_⟩
  exact (routing_caches_coherent (oneRoute "v1") promoted _ rfl).1.1

end Wdl.Gateway
