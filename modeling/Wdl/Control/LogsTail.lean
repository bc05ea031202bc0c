import Wdl.Base.Machine
import Mathlib.Data.Prod.Lex
import Mathlib.Data.List.Sort

/-!
# Log tails

A tail session reads the streams of some workers with one blocking `XREAD` after the other and
sends what it gets to its client. It keeps a position for each stream. The position is `$` until
the stream has delivered something: such a stream is read from whatever is its last entry when the
next read begins.

* `session` is the session as a machine: entries are appended and trimmed, and reads begin and
  are answered, in any order.
* `Inv` says that what the client must get was sent, or comes with the next reply.
* `tail_has_no_gaps`: this is kept as long as nothing is appended to a stream that is still at `$`
  while no read is blocked. `tail_gap` is a session in which something is, and is lost.
-/

namespace Wdl.Control.LogsTail

open Option List

/-- `<ms>-<seq>` -/
abbrev StreamId := ℕ ×ₗ ℕ

/-- Negative, zero or positive. -/
def compareStreamIds (a b : StreamId) : ℤ :=
  if (ofLex a).1 ≠ (ofLex b).1 then if (ofLex a).1 < (ofLex b).1 then -1 else 1
  else if (ofLex a).2 ≠ (ofLex b).2 then if (ofLex a).2 < (ofLex b).2 then -1 else 1
  else 0

/-- What the fields of an entry hold: a JSON object, a text that is no JSON, or nothing to send. -/
inductive Payload
  | event (data : String)
  | malformed
  | skipped
  deriving DecidableEq

structure Entry where
  id : StreamId
  payload : Payload
  deriving DecidableEq

/-- A stream, with the last identifier it has given, which outlives the entries. -/
structure Stream where
  entries : List Entry
  last : StreamId
  sorted : entries.Pairwise fun a b => a.id < b.id
  le_last : ∀ e ∈ entries, e.id ≤ last

namespace Stream

def append (s : Stream) (e : Entry) (h : s.last < e.id) : Stream where
  entries := s.entries ++ [e]
  last := e.id
  sorted := List.pairwise_append.2 ⟨s.sorted, List.pairwise_singleton _ _, by
    simpa using fun a ha => (s.le_last a ha).trans_lt h⟩
  le_last a ha := by
    rcases List.mem_append.1 ha with ha | ha
    · exact (s.le_last a ha).trans h.le
    · rw [List.mem_singleton.1 ha]

/-- The first entries are removed, all of them if the key expires. -/
def trim (s : Stream) (n : ℕ) : Stream where
  entries := s.entries.drop n
  last := s.last
  sorted := s.sorted.drop
  le_last e he := s.le_last e (List.mem_of_mem_drop he)

/-- The entries after a position. -/
def after (s : Stream) (i : StreamId) : List Entry := s.entries.filter (i < ·.id)

theorem after_getLast (s : Stream) {i : StreamId} {l : Entry} (h : (s.after i).getLast? = some l) :
    l ∈ s.entries ∧ i < l.id ∧ ∀ e ∈ s.after i, e.id ≤ l.id := by
  obtain ⟨init, hinit⟩ := List.getLast?_eq_some_iff.1 h
  obtain ⟨hmem, hlt⟩ := mem_filter.1 (show l ∈ s.after i by simp [hinit])
  have hsorted : (init ++ [l]).Pairwise fun a b => a.id < b.id := hinit ▸ s.sorted.filter _
  refine ⟨hmem, by simpa using hlt, fun e he => ?_⟩
  rw [hinit] at he
  rcases mem_append.1 he with he | he
  · exact ((pairwise_append.1 hsorted).2.2 e he l (mem_singleton.2 rfl)).le
  · rw [mem_singleton.1 he]

end Stream

/-! ## The session -/

inductive Warning
  | resumeStreamExpired
  | resumePointTrimmed
  deriving DecidableEq

/-- `none` is a key that does not exist. -/
def checkResumePoint (stream : Option (List Entry)) (resumeId : StreamId) : Option Warning :=
  match stream with
  | none => some .resumeStreamExpired
  | some [] => none
  | some (first :: _) =>
    if compareStreamIds resumeId first.id < 0 then some .resumePointTrimmed else none

/-- An entry as it is sent to the client. -/
structure SseEvent where
  id : StreamId
  data : String
  deriving DecidableEq

/-- A stream, and what the session has of it. -/
structure Tail where
  stream : Stream
  /-- `none` is `$`. -/
  id : Option StreamId
  /-- Where a read began that is not answered yet: `$` is the last entry of that time. -/
  reading : Option StreamId := none
  sent : List SseEvent := []
  parseFailures : List StreamId := []
  /-- The client must get what comes after this: where the first read began (not stored). -/
  since : Option StreamId := none

namespace Tail

def toEvent (e : Entry) : Option SseEvent :=
  match e.payload with
  | .event data => some ⟨e.id, data⟩
  | _ => none

/-- The turn of `decode` for an entry. -/
def decodeItem (T : Tail) (e : Entry) : Tail :=
  { T with
    id := some e.id
    sent := T.sent ++ (toEvent e).toList
    parseFailures :=
      if e.payload = .malformed then T.parseFailures ++ [e.id] else T.parseFailures }

def read (T : Tail) : Tail :=
  { T with
    reading := some (T.id.getD T.stream.last)
    since := T.since.or (some (T.id.getD T.stream.last)) }

/-- The reply to a read has what the stream holds after the position it began with. -/
def reply (T : Tail) : Tail :=
  (T.reading.elim [] T.stream.after).foldl decodeItem { T with reading := none }

end Tail

structure State where
  tails : List Tail
  warning : Option Warning := none

inductive Event
  | append (k : ℕ) (e : Entry)
  | trim (k n : ℕ)
  | read
  | reply

/-- One read is for all streams, and so is its reply; if it has no entry, it has timed out. -/
def State.next (s : State) : Event → Option State
  | .append k e =>
    match s.tails[k]? with
    | none => none
    | some T =>
      if h : T.stream.last < e.id then
        some { s with tails := s.tails.set k { T with stream := T.stream.append e h } }
      else none
  | .trim k n => s.tails[k]?.map fun T =>
    { s with tails := s.tails.set k { T with stream := T.stream.trim n } }
  | .read =>
    if ∀ T ∈ s.tails, T.reading = none then some { s with tails := s.tails.map .read } else none
  | .reply =>
    if ∀ T ∈ s.tails, T.reading ≠ none then some { s with tails := s.tails.map .reply } else none

/-- A session for the streams of some workers. A client that resumes has one worker; `expired`
    says that its key did not exist. -/
def session (streams : List Stream) (resume : Option (StreamId × Bool)) : Machine State Event where
  start :=
    match streams, resume with
    | [stream], some (resumeId, expired) =>
      match checkResumePoint (if expired then none else some stream.entries) resumeId with
      | none => { tails := [{ stream, id := some resumeId }] }
      | some warning => { tails := [{ stream, id := none }], warning }
    | _, _ => { tails := streams.map fun stream => { stream, id := none } }
  next := State.next

/-! ## What the client gets -/

namespace Tail

variable {T : Tail}

def Sent (T : Tail) (e : Entry) : Prop := ∃ ev ∈ T.sent, toEvent e = some ev

/-- The entry comes with the next reply: it lies after the position of the stream or, if that is
    `$`, after where the blocked read began. -/
def Ahead (T : Tail) (e : Entry) : Prop := ∃ i, T.id.or T.reading = some i ∧ i < e.id

/-- What the client must get was sent or comes with the next reply. -/
structure Inv (T : Tail) : Prop where
  objects : ∀ e ∈ T.stream.entries, (toEvent e).isSome = true
  ordered : T.sent.Pairwise fun a b => a.id < b.id
  upto : ∀ ev ∈ T.sent, ∃ i, T.id = some i ∧ ev.id ≤ i
  known : ∀ i, T.id = some i → i ≤ T.stream.last ∨ T.since = some i ∨ T.since = none
  blocked : ∀ r, T.reading = some r → T.id.getD r = r ∧ (T.id = none → r ≤ T.stream.last)
  due : ∀ i, T.since = some i → ∀ e ∈ T.stream.entries, i < e.id → T.Sent e ∨ T.Ahead e

theorem toEvent_id {e : Entry} {ev : SseEvent} (h : toEvent e = some ev) : ev.id = e.id := by
  rw [toEvent] at h
  split at h
  · rw [← Option.some.inj h]
  · cases h

theorem Inv.append (h : T.Inv) {e : Entry} (he : (toEvent e).isSome = true)
    (hread : T.since ≠ none → T.id = none → T.reading ≠ none) (hlast : T.stream.last < e.id) :
    Inv { T with stream := T.stream.append e hlast } where
  objects := by simpa [Stream.append, or_imp, forall_and] using ⟨h.objects, he⟩
  ordered := h.ordered
  upto := h.upto
  known i hi := (h.known i hi).imp_left (·.trans hlast.le)
  blocked r hr := (h.blocked r hr).imp_right fun hle hnone => (hle hnone).trans hlast.le
  due i (hi : T.since = some i) a ha hlt := by
    rcases mem_append.1 ha with ha | ha
    · exact h.due i hi a ha hlt
    -- the new entry comes after the position, be it that of the stream or of a blocked read
    · obtain rfl := mem_singleton.1 ha
      refine .inr ?_
      cases hid : T.id with
      | some j =>
        refine ⟨j, by simp, ?_⟩
        rcases h.known j hid with hle | hsince | hsince
        · exact hle.trans_lt hlast
        · exact Option.some.inj (hsince.symm.trans hi) ▸ hlt
        · simp [hsince] at hi
      | none =>
        obtain ⟨r, hr⟩ := ne_none_iff_exists'.1 (hread (by simp [hi]) hid)
        exact ⟨r, by simp [hr], ((h.blocked r hr).2 hid).trans_lt hlast⟩

theorem Inv.trim (h : T.Inv) (n : ℕ) : Inv { T with stream := T.stream.trim n } :=
  ⟨fun e he => h.objects e (mem_of_mem_drop he), h.ordered, h.upto, h.known, h.blocked,
    fun i hi e he => h.due i hi e (mem_of_mem_drop he)⟩

theorem Inv.read (h : T.Inv) (hidle : T.reading = none) : T.read.Inv where
  objects := h.objects
  ordered := h.ordered
  upto := h.upto
  known i hi := by
    have hi : T.id = some i := hi
    rcases h.known i hi with hle | hsince | hsince <;> simp [Tail.read, *]
  blocked := by
    rintro r ⟨⟩
    cases hid : T.id <;> simp [Tail.read, hid]
  due i hi e he hlt := by
    simp only [Ahead, Tail.read] at hi ⊢
    cases hsince : T.since with
    | some j =>
      -- with no read under way, what is ahead is ahead of the stream's own position
      refine (h.due i (by simpa [hsince] using hi) e he hlt).imp_right ?_
      rintro ⟨p, hp, hlt⟩
      exact ⟨p, by simp_all, hlt⟩
    | none =>
      cases hid : T.id with
      | some j => exact .inr ⟨i, by simpa [hsince, hid] using hi, hlt⟩
      | none =>
        obtain rfl : T.stream.last = i := by simpa [hsince, hid] using hi
        exact absurd (T.stream.le_last e he) (not_le.2 hlt)

theorem foldl_decodeItem (items : List Entry) (T : Tail) :
    (items.foldl decodeItem T).id = (items.getLast?.map (·.id)).or T.id ∧
    (items.foldl decodeItem T).sent = T.sent ++ items.filterMap toEvent ∧
    (items.foldl decodeItem T).stream = T.stream ∧ (items.foldl decodeItem T).since = T.since ∧
    (items.foldl decodeItem T).reading = T.reading := by
  induction items using List.reverseRecOn with
  | nil => simp
  | append_singleton items e ih => cases h : toEvent e <;> simp_all [decodeItem]

theorem Inv.reply (h : T.Inv) (hread : T.reading ≠ none) : T.reply.Inv ∧
    ∀ i, T.reply.since = some i → ∀ e ∈ T.reply.stream.entries, i < e.id → T.reply.Sent e := by
  obtain ⟨r, hr⟩ := ne_none_iff_exists'.1 hread
  have hreply : T.reply = (T.stream.after r).foldl decodeItem { T with reading := none } := by
    simp [Tail.reply, hr]
  obtain ⟨hid, hsent, hstream, hsince, hreading⟩ :=
    foldl_decodeItem (T.stream.after r) { T with reading := none }
  rw [← hreply] at hid hsent hstream hsince hreading
  have hpos : T.id.or T.reading = some r := by
    have := (h.blocked r hr).1
    cases hcur : T.id <;> simp_all
  have hold : ∀ ev ∈ T.sent, ev.id ≤ r := by
    intro ev hev
    obtain ⟨i, hi, hle⟩ := h.upto ev hev
    have hr := (h.blocked r hr).1
    rw [hi, getD_some] at hr
    exact hr ▸ hle
  have hnew : ∀ ev ∈ (T.stream.after r).filterMap toEvent, ∃ e ∈ T.stream.after r,
      ev.id = e.id ∧ r < e.id := by
    intro ev hev
    obtain ⟨e, he, hev⟩ := mem_filterMap.1 hev
    exact ⟨e, he, toEvent_id hev, by simpa using (mem_filter.1 he).2⟩
  have hdue : ∀ i, T.since = some i → ∀ e ∈ T.stream.entries, i < e.id → T.reply.Sent e := by
    intro i hi e he hlt
    rw [Sent, hsent]
    rcases h.due i hi e he hlt with ⟨ev, hev, heq⟩ | ⟨p, hp, hlt⟩
    · exact ⟨ev, mem_append_left _ hev, heq⟩
    · cases hpos.symm.trans hp
      obtain ⟨ev, hev⟩ := isSome_iff_exists.1 (h.objects e he)
      have hmem : e ∈ T.stream.after r := mem_filter.2 ⟨he, by simpa using hlt⟩
      exact ⟨ev, mem_append_right _ (mem_filterMap.2 ⟨e, hmem, hev⟩), hev⟩
  refine ⟨⟨hstream ▸ h.objects, ?_, ?_, ?_, ?_, ?_⟩, by rwa [hsince, hstream]⟩
  · rw [hsent]
    refine pairwise_append.2 ⟨h.ordered, ?_, fun a ha b hb => ?_⟩
    · refine (T.stream.sorted.filter _).filterMap _ fun a b hab x hx y hy => ?_
      rwa [toEvent_id hx, toEvent_id hy]
    · obtain ⟨e, -, heq, hlt⟩ := hnew b hb
      exact (hold a ha).trans_lt (heq ▸ hlt)
  · intro ev hev
    rw [hsent] at hev
    cases hl : (T.stream.after r).getLast? with
    | none =>
      rw [List.getLast?_eq_none_iff.1 hl] at hev
      simpa [hid, hl] using h.upto ev (by simpa using hev)
    | some l =>
      obtain ⟨-, hlt, hmax⟩ := T.stream.after_getLast hl
      refine ⟨l.id, by simp [hid, hl], ?_⟩
      rcases mem_append.1 hev with hev | hev
      · exact (hold ev hev).trans hlt.le
      · obtain ⟨e, he, heq, -⟩ := hnew ev hev
        exact heq ▸ hmax e he
  · intro i hi
    rw [hsince, hstream]
    cases hl : (T.stream.after r).getLast? with
    | none => exact h.known i (by simpa [hid, hl] using hi)
    | some l =>
      obtain rfl : l.id = i := by simpa [hid, hl] using hi
      exact .inl (T.stream.le_last l (T.stream.after_getLast hl).1)
  · simp [hreading]
  · rw [hsince, hstream]
    exact fun i hi e he hlt => .inl (hdue i hi e he hlt)

end Tail

/-! ## Whole sessions -/

/-- Only JSON objects are appended, and nothing to a stream at `$` between two reads. A session
    that has warned of a gap need not care. -/
def Quiet (s : State) : Event → Prop
  | .append k e => s.warning = none → (Tail.toEvent e).isSome = true ∧ ∀ T ∈ s.tails[k]?,
    T.since ≠ none → T.id = none → T.reading ≠ none
  | _ => True

/-- The session has warned of a gap, or has none. -/
def Covered (s : State) : Prop := s.warning ≠ none ∨ ∀ T ∈ s.tails, T.Inv

theorem covered_start {streams : List Stream} (resume : Option (StreamId × Bool))
    (hobjects : ∀ s ∈ streams, ∀ e ∈ s.entries, (Tail.toEvent e).isSome = true) :
    Covered (session streams resume).start := by
  have hfresh (stream : Stream) (hs : stream ∈ streams) (id : Option StreamId) :
      Tail.Inv { stream, id } := by
    refine ⟨hobjects stream hs, ?_, ?_, ?_, ?_, ?_⟩ <;> simp
  simp only [session]
  split
  · split
    · exact .inr fun T hT => mem_singleton.1 hT ▸ hfresh _ (by simp) _
    · exact .inl (by simp)
  · refine .inr fun T hT => ?_
    obtain ⟨stream, hs, rfl⟩ := mem_map.1 hT
    exact hfresh stream hs none

theorem Covered.next {s t : State} {e : Event} (h : Covered s) (hquiet : Quiet s e)
    (ht : s.next e = some t) : Covered t := by
  have hset (k : ℕ) (T' : Tail) (hinv : s.warning = none → T'.Inv) :
      Covered { s with tails := s.tails.set k T' } := by
    by_cases hwarn : s.warning = none
    · refine .inr fun T hT => ?_
      rcases mem_or_eq_of_mem_set hT with hT | rfl
      · exact h.resolve_left (not_not.2 hwarn) T hT
      · exact hinv hwarn
    · exact .inl hwarn
  have hmap (f : Tail → Tail) (hinv : ∀ T ∈ s.tails, T.Inv → (f T).Inv) :
      Covered { s with tails := s.tails.map f } :=
    h.imp_right fun h T hT => by
      obtain ⟨T, hmem, rfl⟩ := mem_map.1 hT
      exact hinv T hmem (h T hmem)
  have hinv {T : Tail} {k : ℕ} (hT : s.tails[k]? = some T) (hwarn : s.warning = none) : T.Inv :=
    h.resolve_left (not_not.2 hwarn) T (mem_of_getElem? hT)
  cases e with
  | append k e =>
    simp only [State.next] at ht
    split at ht
    · cases ht
    · rename_i T hT
      split at ht
      · cases ht
        exact hset k _ fun hwarn => (hinv hT hwarn).append (hquiet hwarn).1
          ((hquiet hwarn).2 T hT) _
      · cases ht
  | trim k n =>
    obtain ⟨T, hT, rfl⟩ := map_eq_some_iff.1 ht
    exact hset k _ fun hwarn => (hinv hT hwarn).trim n
  | read =>
    simp only [State.next, ite_none_right_eq_some, Option.some.injEq] at ht
    obtain ⟨hidle, rfl⟩ := ht
    exact hmap _ fun T hT hinv => hinv.read (hidle T hT)
  | reply =>
    simp only [State.next, ite_none_right_eq_some, Option.some.injEq] at ht
    obtain ⟨hread, rfl⟩ := ht
    exact hmap _ fun T hT hinv => (hinv.reply (hread T hT)).1

/-- **No gaps.** In a session in which only JSON objects are appended, and nothing to a stream at
    `$` while no read is blocked, the client gets the entries of each stream in their order and
    once, and what it must get of what is not trimmed was sent or comes with the next reply. After
    a reply, all of it was sent. Otherwise the session has warned of a gap. -/
theorem tail_has_no_gaps {streams : List Stream} {resume : Option (StreamId × Bool)}
    {es : List Event} {s : State}
    (hobjects : ∀ s ∈ streams, ∀ e ∈ s.entries, (Tail.toEvent e).isSome = true)
    (hquiet : (session streams resume).MeetsFrom Quiet (session streams resume).start es)
    (hrun : (session streams resume).run es = some s) :
    s.warning ≠ none ∨ ∀ T ∈ s.tails, (T.sent.Pairwise fun a b => a.id < b.id) ∧
      ∀ i, T.since = some i → (∀ e ∈ T.stream.entries, i < e.id → T.Sent e ∨ T.Ahead e) ∧
        (T.reading ≠ none → ∀ e ∈ T.stream.entries, i < e.id → T.reply.Sent e) := by
  have hcovered : Covered s :=
    Machine.runFrom_induction_of_meets (fun _ _ _ h => h.next) hquiet hrun
    (covered_start resume hobjects)
  refine hcovered.imp_right fun h T hT => ⟨(h T hT).ordered, fun i hi => ⟨(h T hT).due i hi, ?_⟩⟩
  intro hread e he hlt
  obtain ⟨-, -, hstream, hsince, -⟩ :=
    Tail.foldl_decodeItem (T.reading.elim [] T.stream.after) { T with reading := none }
  exact ((h T hT).reply hread).2 i (hsince.trans hi) e (hstream ▸ he) hlt

/-- A stream without entries, which has given no identifier yet. -/
def emptyStream : Stream := ⟨[], toLex (0, 0), .nil, by simp⟩

def exampleEntry : Entry := ⟨toLex (5, 0), .event "hello"⟩

/-- An entry that is appended while the first read is blocked. -/
theorem tail_has_no_gaps_blocked : ∃ s,
    (session [emptyStream] none).run [.read, .append 0 exampleEntry, .reply] = some s ∧
    (s.tails.map fun T => (T.since, T.sent)) =
      [(some (toLex (0, 0)), [⟨toLex (5, 0), "hello"⟩])] ∧
    ∀ T ∈ s.tails, T.sent.Pairwise fun a b => a.id < b.id := by
  refine ⟨_, rfl, rfl, ?_⟩
  have hrun : (session [emptyStream] none).run [.read, .append 0 exampleEntry, .reply] = some _ :=
    rfl
  have h := tail_has_no_gaps (by decide) ?_ hrun
  · exact fun T hT => (h.resolve_left (by decide) T hT).1
  · refine ⟨trivial, fun _ => ⟨rfl, ?_⟩, trivial, trivial⟩
    rintro T ⟨⟩ - - h
    cases h

/-- The first read times out, and an entry is appended before the next one. It is in the stream,
    but the session has not sent it and its next reply will not have it; and it has not warned. -/
theorem tail_gap : ∃ s, (session [emptyStream] none).run
      [.read, .reply, .append 0 exampleEntry, .read] = some s ∧ s.warning = none ∧
    ∃ T ∈ s.tails, T.since = some (toLex (0, 0)) ∧ exampleEntry ∈ T.stream.entries ∧
      toLex (0, 0) < exampleEntry.id ∧ ¬ T.Sent exampleEntry ∧ ¬ T.Ahead exampleEntry := by
  refine ⟨_, rfl, rfl, _, mem_singleton.2 rfl, rfl, mem_singleton.2 rfl, by decide, ?_, ?_⟩
  · rintro ⟨ev, hev, -⟩
    cases hev
  · rintro ⟨i, hi, hlt⟩
    obtain rfl : toLex (5, 0) = i := Option.some.inj hi
    exact lt_irrefl _ hlt

end Wdl.Control.LogsTail
