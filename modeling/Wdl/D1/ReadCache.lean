import Wdl.Base.Tally

/-!
# The read cache of the router

The router of `d1-runtime` keeps the results of reads, in one cache for each database. A cache
counts the bytes of its entries, and the router those of its caches. Each counter is kept up to
date by differences: of an entry that is deleted, and of a cache before and after it was used.

* `Cache.Inv` and `Router.Inv` say what the counters stand for, and the bounds.
* `router_counts_bytes`: they hold after every sequence of steps, and a result that is stored
  leaves all caches together within their bound.
-/

namespace Wdl.D1.ReadCache

open Lru (without)

structure Config where
  ttlMs : ℕ
  maxEntries : ℕ
  maxBytes : ℕ

/-- An entry. What it holds is left out. -/
structure Entry where
  expiresAt : ℕ
  size : ℤ

/-- What shows that a result belongs to the state that a read began in. -/
structure Token where
  epoch : ℕ
  version : ℕ
  expiresAt : ℕ

/-- A read: its database, its key and the length of the key, and what the tests of its text say
    (`isReadCacheableQuery`, `cacheKeyStringsCouldFit`). -/
structure Query where
  dbKey : String
  key : String
  keyLength : ℕ
  cacheable : Bool
  couldFit : Bool

/-- `D1ReadCache`; the entries are in the order of their insertion. -/
structure Cache where
  entries : List (String × Entry) := []
  retainedBytes : ℤ := 0
  mutationVersion : ℕ := 0
  epoch : ℕ

inductive Begun
  | bypass | miss (token : Token) | hit (entry : Entry)

namespace Cache

def deleteEntry (c : Cache) (key : String) : Cache :=
  match c.entries.lookup key with
  | none => c
  | some entry =>
    { c with entries := without key c.entries, retainedBytes := c.retainedBytes - entry.size }

def purgeExpired (now : ℕ) (c : Cache) : Cache :=
  (c.entries.filter fun e => e.2.expiresAt ≤ now).foldl (fun c e => c.deleteEntry e.1) c

def beginRead (config : Config) (q : Query) (now : ℕ) (c : Cache) : Begun × Cache :=
  if q.cacheable = false then (.bypass, c)
  else
    let c := c.purgeExpired now
    if q.couldFit = false ∨ config.maxBytes < q.keyLength * 2 then (.bypass, c)
    else match c.entries.lookup q.key with
      | none => (.miss ⟨c.epoch, c.mutationVersion, now + config.ttlMs⟩, c)
      | some entry =>
        (.hit entry, { c with entries := without q.key c.entries ++ [(q.key, entry)] })

def finishRead (config : Config) (token : Token) (q : Query) (byteLength : ℕ) (c : Cache) :
    Bool × Cache :=
  let size := q.keyLength * 2 + byteLength
  if token.epoch ≠ c.epoch ∨ token.version ≠ c.mutationVersion ∨ q.couldFit = false ∨
      config.maxBytes < size then (false, c)
  else
    let c := c.deleteEntry q.key
    let kept := evict (fun n bytes => config.maxEntries < n ∨ config.maxBytes < bytes) Entry.size
      (c.entries ++ [(q.key, ⟨token.expiresAt, size⟩)]) (c.retainedBytes + size)
    (true, { c with entries := kept.1, retainedBytes := kept.2 })

def invalidate (c : Cache) : Cache :=
  { c with mutationVersion := c.mutationVersion + 1, entries := [], retainedBytes := 0 }

theorem beginRead_fresh (config : Config) (q : Query) (now epoch : ℕ) :
    (beginRead config q now { epoch }).2 = { epoch } := by
  unfold beginRead
  split_ifs <;> rfl

end Cache

/-- The caches in the order of their insertion, and `routerReadCacheBytes`. -/
structure Router where
  caches : List (String × Cache) := []
  bytes : ℤ := 0
  /-- The number of the next `Symbol`. -/
  symbols : ℕ := 0

namespace Router

def maxDbs : ℕ := 10000

def accountRouterReadCacheBytes (c : Cache) (previousBytes : ℤ) (r : Router) : Router :=
  { r with bytes := r.bytes + (c.retainedBytes - previousBytes) }

/-- The cache of a database has changed, in its place. -/
def write (dbKey : String) (c : Cache) (r : Router) : Router :=
  { r with caches := r.caches.map fun e => if e.1 = dbKey then (dbKey, c) else e }

/-- A cache is removed and retired: its epoch, and with it each token of it, is gone for good. -/
def removeRouterReadCache (dbKey : String) (r : Router) : Router :=
  match r.caches.lookup dbKey with
  | none => r
  | some c => { r with bytes := r.bytes - c.retainedBytes, caches := without dbKey r.caches }

/-- The loops that remove the oldest caches. -/
def removeOldest (full : ℕ → ℤ → Bool) (r : Router) : Router :=
  let kept := evict full Cache.retainedBytes r.caches r.bytes
  { r with caches := kept.1, bytes := kept.2 }

def enforceRouterReadCacheByteBudget (maxBytes : ℕ) : Router → Router :=
  removeOldest fun _ bytes => maxBytes < bytes

/-- A cache becomes the last one. -/
def moveToEnd (dbKey : String) (c : Cache) (r : Router) : Router :=
  { r with caches := without dbKey r.caches ++ [(dbKey, c)] }

/-- `retainRouterReadCache` for a cache that is not there yet. -/
def retainNew (dbKey : String) (c : Cache) (r : Router) : Router :=
  let r := r.removeOldest fun n _ => maxDbs ≤ n
  { r with caches := r.caches ++ [(dbKey, c)] }

/-- The part of `beginRouterRead` that uses the cache, for a read at the owner. -/
def beginRouterRead (config : Config) (q : Query) (now : ℕ) (r : Router) : Begun × Router :=
  if q.cacheable = false ∨ q.couldFit = false then (.bypass, r)
  else match r.caches.lookup q.dbKey with
    | some cache =>
      match cache.beginRead config q now with
      | (.bypass, c) =>
        (.bypass, (r.write q.dbKey c).accountRouterReadCacheBytes c cache.retainedBytes)
      | (read, c) =>
        (read, (r.moveToEnd q.dbKey c).accountRouterReadCacheBytes c cache.retainedBytes)
    | none =>
      -- a new cache, which is dropped again if the read is not cached
      let r := { r with symbols := r.symbols + 1 }
      match ({ epoch := r.symbols } : Cache).beginRead config q now with
      | (.bypass, _) => (.bypass, r)
      | (read, c) => (read, (r.accountRouterReadCacheBytes c 0).retainNew q.dbKey c)

/-- The part of `handleQuery` that stores a result; the first value says whether it was stored. -/
def finishRouterRead (config : Config) (token : Token) (q : Query) (byteLength : ℕ)
    (r : Router) : Bool × Router :=
  match r.caches.lookup q.dbKey with
  | none => (false, r)
  | some cache =>
    match cache.finishRead config token q byteLength with
    | (false, c) =>
      (false, (r.write q.dbKey c).accountRouterReadCacheBytes c cache.retainedBytes)
    | (true, c) =>
      (true, ((r.moveToEnd q.dbKey c).accountRouterReadCacheBytes c
        cache.retainedBytes).enforceRouterReadCacheByteBudget config.maxBytes)

def invalidateRouterReadCache (dbKey : String) (r : Router) : Router :=
  match r.caches.lookup dbKey with
  | none => r
  | some cache => (r.write dbKey cache.invalidate).accountRouterReadCacheBytes cache.invalidate
      cache.retainedBytes

end Router

/-- What the requests do with the caches, one after the other. -/
inductive Op
  | beginRead (q : Query) (now : ℕ)
  | finishRead (token : Token) (q : Query) (byteLength : ℕ)
  | invalidate (dbKey : String)
  | forget (dbKey : String)

def Router.step (config : Config) (r : Router) : Op → Router
  | .beginRead q now => (r.beginRouterRead config q now).2
  | .finishRead token q byteLength => (r.finishRouterRead config token q byteLength).2
  | .invalidate dbKey => r.invalidateRouterReadCache dbKey
  | .forget dbKey => r.removeRouterReadCache dbKey

/-! ## The counter of a cache -/

variable {config : Config}

structure Cache.Inv (config : Config) (c : Cache) : Prop where
  counted : Tallied (fun e => 0 ≤ e.size) Entry.size c.entries c.retainedBytes
  entries : c.entries.length ≤ config.maxEntries
  bytes : c.retainedBytes ≤ config.maxBytes

namespace Cache.Inv

variable {c : Cache}

theorem empty (version epoch : ℕ) : Cache.Inv config (⟨[], 0, version, epoch⟩ : Cache) :=
  ⟨.nil, Nat.zero_le _, Int.natCast_nonneg _⟩

theorem deleteEntry (h : c.Inv config) (key : String) : (c.deleteEntry key).Inv config := by
  unfold Cache.deleteEntry
  split
  case h_1 => exact h
  case h_2 entry hentry =>
    have hsize := h.counted.all_of_lookup hentry
    exact ⟨h.counted.erase hentry, (Lru.length_without_le _ _).trans h.entries,
      (sub_le_self _ hsize).trans h.bytes⟩

theorem purgeExpired (h : c.Inv config) (now : ℕ) : (c.purgeExpired now).Inv config :=
  List.foldlRecOn _ _ h fun _ hc e _ => hc.deleteEntry e.1

theorem beginRead (h : c.Inv config) (q : Query) (now : ℕ) :
    (c.beginRead config q now).2.Inv config := by
  have hpurged := h.purgeExpired now
  unfold Cache.beginRead
  dsimp only
  split_ifs
  · exact h
  · exact hpurged
  · split
    case h_1 => exact hpurged
    case h_2 entry hentry =>
      have hsize := hpurged.counted.all_of_lookup hentry
      have hmoved := hpurged.counted.move hentry hsize
      rw [sub_self, add_zero] at hmoved
      exact ⟨hmoved, (Tallied.length_without_append hpurged.counted.nodup hentry).trans_le
        hpurged.entries, hpurged.bytes⟩

theorem notMem_deleteEntry (c : Cache) (key : String) :
    key ∉ (c.deleteEntry key).entries.map Prod.fst := by
  unfold Cache.deleteEntry
  split
  case h_1 hnone => exact Tallied.notMem_keys_of_lookup hnone
  case h_2 => exact Tallied.notMem_keys_without

theorem finishRead (h : c.Inv config) (token : Token) (q : Query) (byteLength : ℕ) :
    (c.finishRead config token q byteLength).2.Inv config := by
  unfold Cache.finishRead
  dsimp only
  split_ifs
  · exact h
  · have hadded := (h.deleteEntry q.key).counted.snoc (notMem_deleteEntry c q.key)
      (v := ⟨token.expiresAt, ↑(q.keyLength * 2 + byteLength)⟩) (Int.natCast_nonneg _)
    rcases hadded.evict_within _ with ⟨hnil, hzero⟩ | hkept
    · exact ⟨hadded.evict _, (congrArg List.length hnil).trans_le (Nat.zero_le _),
        hzero.trans_le (Int.natCast_nonneg _)⟩
    · have hkept := not_or.1 (of_decide_eq_false hkept)
      exact ⟨hadded.evict _, not_lt.1 hkept.1, not_lt.1 hkept.2⟩

end Cache.Inv

/-! ## The counter of the router -/

structure Router.Inv (config : Config) (r : Router) : Prop where
  counted : Tallied (Cache.Inv config) Cache.retainedBytes r.caches r.bytes
  caches : r.caches.length ≤ maxDbs

namespace Router.Inv

variable {r : Router} {dbKey : String} {c c' : Cache}

section

variable (h : r.Inv config)

include h

theorem removeRouterReadCache (dbKey : String) :
    (r.removeRouterReadCache dbKey).Inv config := by
  unfold Router.removeRouterReadCache
  split
  case h_1 => exact h
  case h_2 c hc => exact ⟨h.counted.erase hc, (Lru.length_without_le _ _).trans h.caches⟩

/-- A cache that was used is counted anew, in its place. -/
theorem write (hc : r.caches.lookup dbKey = some c) (hc' : c'.Inv config) :
    ((r.write dbKey c').accountRouterReadCacheBytes c' c.retainedBytes).Inv config :=
  ⟨h.counted.replace hc hc', (List.length_map _).trans_le h.caches⟩

theorem moveToEnd (hc : r.caches.lookup dbKey = some c) (hc' : c'.Inv config) :
    ((r.moveToEnd dbKey c').accountRouterReadCacheBytes c' c.retainedBytes).Inv config :=
  ⟨h.counted.move hc hc',
    (Tallied.length_without_append h.counted.nodup hc).trans_le h.caches⟩

theorem removeOldest (full : ℕ → ℤ → Bool) : (r.removeOldest full).Inv config :=
  ⟨h.counted.evict full, (evict_suffix full).length_le.trans h.caches⟩

theorem retainNew (hnone : r.caches.lookup dbKey = none) (hc : c.Inv config)
    (hzero : c.retainedBytes = 0) : (r.retainNew dbKey c).Inv config := by
  have hkept := h.removeOldest fun n _ => maxDbs ≤ n
  have hkey : dbKey ∉ (r.removeOldest fun n _ => maxDbs ≤ n).caches.map Prod.fst := fun hmem =>
    Tallied.notMem_keys_of_lookup hnone (((evict_suffix _).map Prod.fst).subset hmem)
  have hcounted := hkept.counted.snoc hkey hc
  rw [hzero, add_zero] at hcounted
  refine ⟨hcounted, List.length_append.trans_le ?_⟩
  rcases h.counted.evict_within fun n _ => maxDbs ≤ n with ⟨hnil, -⟩ | hroom
  · exact (congrArg (List.length · + 1) hnil).trans_le (by decide)
  · exact not_le.1 (of_decide_eq_false hroom)

theorem beginRouterRead (q : Query) (now : ℕ) :
    (r.beginRouterRead config q now).2.Inv config := by
  unfold Router.beginRouterRead
  split_ifs
  · exact h
  · split
    case h_1 cache hcache =>
      have hc := (h.counted.all_of_lookup hcache).beginRead q now
      split <;> rename_i heq <;> rw [heq] at hc
      · exact h.write hcache hc
      · exact h.moveToEnd hcache hc
    case h_2 hnone =>
      dsimp only
      split <;> rename_i heq
      · exact ⟨h.counted, h.caches⟩
      · -- the cache is as it was created
        obtain rfl := (Cache.beginRead_fresh config q now _).symm.trans (congrArg Prod.snd heq)
        have hcounted :
          Tallied (Cache.Inv config) Cache.retainedBytes r.caches (r.bytes + (0 - 0)) := by
          rw [sub_self, add_zero]
          exact h.counted
        exact retainNew ⟨hcounted, h.caches⟩ hnone (.empty _ _) rfl

theorem finishRouterRead (token : Token) (q : Query) (byteLength : ℕ) :
    (r.finishRouterRead config token q byteLength).2.Inv config ∧
      ((r.finishRouterRead config token q byteLength).1 = true →
        (r.finishRouterRead config token q byteLength).2.bytes ≤ config.maxBytes) := by
  unfold Router.finishRouterRead
  split
  case h_1 => exact ⟨h, nofun⟩
  case h_2 cache hcache =>
    have hc := (h.counted.all_of_lookup hcache).finishRead token q byteLength
    split <;> rename_i heq <;> rw [heq] at hc
    · exact ⟨h.write hcache hc, nofun⟩
    · have hmoved := h.moveToEnd hcache hc
      refine ⟨hmoved.removeOldest _, fun _ => ?_⟩
      rcases hmoved.counted.evict_within _ with ⟨-, hzero⟩ | hkept
      · exact hzero.trans_le (Int.natCast_nonneg _)
      · exact not_lt.1 (of_decide_eq_false hkept)

theorem step (op : Op) : (r.step config op).Inv config := by
  cases op with
  | beginRead q now => exact h.beginRouterRead q now
  | finishRead token q byteLength => exact (h.finishRouterRead token q byteLength).1
  | forget dbKey => exact h.removeRouterReadCache dbKey
  | invalidate dbKey =>
    unfold Router.step Router.invalidateRouterReadCache
    dsimp only
    split
    case h_1 => exact h
    case h_2 hcache => exact h.write hcache (.empty _ _)

end

end Router.Inv

/-- After any steps the counters are what they stand for and within their bounds, and so are all
    bytes together after a result was stored. -/
theorem router_counts_bytes (config : Config) (ops : List Op) :
    let r := ops.foldl (Router.step config) {}
    r.bytes = (r.caches.map fun e => e.2.retainedBytes).sum ∧ r.caches.length ≤ 10000 ∧
      (∀ e ∈ r.caches, e.2.retainedBytes = (e.2.entries.map fun e => e.2.size).sum ∧
        e.2.retainedBytes ≤ config.maxBytes ∧ e.2.entries.length ≤ config.maxEntries) ∧
      ∀ token q byteLength, (r.finishRouterRead config token q byteLength).1 = true →
        (r.finishRouterRead config token q byteLength).2.bytes ≤ config.maxBytes := by
  have h : (ops.foldl (Router.step config) {}).Inv config :=
    List.foldlRecOn _ _ ⟨.nil, Nat.zero_le _⟩ fun _ hr op _ => hr.step op
  refine ⟨h.counted.total, h.caches, fun e he => ?_,
    fun token q n => (h.finishRouterRead token q n).2⟩
  have hc := h.counted.all e he
  exact ⟨hc.counted.total, hc.bytes, hc.entries⟩

end Wdl.D1.ReadCache
