import Wdl.Workflow.Listing
import Mathlib.Data.List.Nodup

/-!
# Following the pages of a listing

What a client sees that follows the cursors of `list_instances`.

* An instance is *visible* if it has a state that is not of a pending create; its *row* is its
  text on a page.
* A call that answers a page consumed the entries of the index from its cursor to the next one,
  and the page holds the rows of the visible instances among them (`PageAt`).
* A call that fails was refused, or it came to an entry that cannot be answered, or to a row that
  does not fit into a page of its own (`Failure`).
* A client that follows the cursors has the rows of all visible instances, in the order of the
  index, when no cursor is returned.
-/

namespace Wdl.Workflow.Listing

open List

/-! ## Cursors are read back -/

variable {n : ℕ}

theorem parseU64_toString (h : n ≤ u64Max) : parseU64 (toString n) = some n := by
  have hdigits : (toString n).toList = Nat.toDigits 10 n := by
    rw [Nat.toString_eq_ofList_toDigits, String.toList_ofList]
  have hdigit : ∀ c ∈ Nat.toDigits 10 n, c.isDigit = true := fun c hc =>
    Nat.isDigit_of_mem_toDigits (by decide) (by decide) hc
  have hsign : (Nat.toDigits 10 n).head? ≠ some '+' := fun hhead =>
    absurd (hdigit _ (mem_of_head? hhead)) (by decide)
  unfold parseU64
  rw [hdigits, if_neg hsign, if_pos, Nat.ofDigitChars_ten_toDigits]
  refine ⟨Nat.toDigits_ne_nil, all_eq_true.2 hdigit, ?_⟩
  rw [Nat.ofDigitChars_ten_toDigits]
  exact h

theorem toString_isEmpty (n : ℕ) : (toString n).isEmpty = false := by
  rw [Nat.toString_eq_ofList_toDigits]
  cases h : Nat.toDigits 10 n with
  | nil => exact absurd h Nat.toDigits_ne_nil
  | cons c l => simp

theorem parseCursor_listOptions {limit : Option Json} (h : n ≤ u64Max) :
    parseCursor (listOptions limit (some (toString n))) = .ok n := by
  have hget : (listOptions limit (some (toString n))).get "cursor" = some (.str (toString n)) := by
    cases limit <;> rfl
  simp only [parseCursor, hget, Json.asStr, toString_isEmpty, Bool.false_eq_true, if_false,
    parseU64_toString h]

theorem parseCursor_listOptions_none (limit : Option Json) :
    parseCursor (listOptions limit none) = .ok 0 := by
  cases limit <;> rfl

theorem parseLimit_listOptions (limit : Option Json) (cursor cursor' : Option String) :
    parseLimit (listOptions limit cursor) = parseLimit (listOptions limit cursor') := by
  cases limit <;> cases cursor <;> cases cursor' <;> rfl

variable {limit : ℕ} {options : Json}

/-- A limit that is accepted is one of those that are allowed. -/
theorem parseLimit_bounds (h : parseLimit options = .ok limit) :
    1 ≤ limit ∧ limit ≤ maxInstancesLimit := by
  unfold parseLimit at h
  split at h
  · cases h
    decide
  · split at h
    · cases h
    · split at h
      · cases h
        assumption
      · cases h

/-! ## The bytes of a response -/

theorem digit_toNat {c : Char} (h : c.isDigit = true) : 48 ≤ c.toNat ∧ c.toNat ≤ 57 := by
  simpa [Char.isDigit, UInt32.le_iff_toNat_le] using h

theorem escapeChar_digit {c : Char} (h : c.isDigit = true) : escapeChar c = [c] := by
  obtain ⟨hlo, hhi⟩ := digit_toNat h
  have hne : ∀ d : Char, d.toNat < 48 ∨ 57 < d.toNat → c ≠ d := by
    rintro d hd rfl
    omega
  rw [escapeChar, if_neg (hne _ (by decide)), if_neg (hne _ (by decide)),
    if_neg (hne _ (by decide)), if_neg (hne _ (by decide)), if_neg (hne _ (by decide)),
    if_neg (by omega), if_neg (by omega),
    if_neg (by omega)]

theorem utf8ByteSize_ofList_cons (c : Char) (l : List Char) :
    (String.ofList (c :: l)).utf8ByteSize = c.utf8Size + (String.ofList l).utf8ByteSize := by
  rw [← singleton_append, String.ofList_append, String.utf8ByteSize_append,
    ← String.singleton_eq_ofList, String.utf8ByteSize_singleton]

/-- A number takes two bytes more than its digits when it is written as a JSON string. -/
theorem utf8ByteSize_quote_toString (n : ℕ) :
    (quote (toString n)).utf8ByteSize = (Nat.toDigits 10 n).length + 2 := by
  have hdigits : ∀ l : List Char, (∀ c ∈ l, c.isDigit = true) →
      (String.ofList (l.flatMap escapeChar)).utf8ByteSize = l.length := by
    intro l hl
    induction l with
    | nil => rfl
    | cons c l ih =>
      have hc := hl c mem_cons_self
      have hsize : c.utf8Size = 1 := by
        obtain ⟨-, hhi⟩ := digit_toNat hc
        exact Char.utf8Size_eq_one_iff.2
          (by rw [UInt32.le_iff_toNat_le]; exact hhi.trans (by decide))
      rw [flatMap_cons, escapeChar_digit hc, singleton_append, utf8ByteSize_ofList_cons,
        ih fun d hd => hl d (mem_cons_of_mem _ hd), hsize, length_cons, Nat.add_comm]
  rw [quote, String.utf8ByteSize_append, String.utf8ByteSize_append,
    Nat.toString_eq_ofList_toDigits, String.toList_ofList, hdigits _ fun c hc =>
      Nat.isDigit_of_mem_toDigits (by decide) (by decide) hc]
  change 1 + _ + 1 = _
  omega

/-- The cursors of a response are numbers of 64 bits. -/
def CursorFits (cursor : Option String) : Prop :=
  ∀ t, cursor = some t → ∃ n, n ≤ u64Max ∧ t = toString n

theorem length_toDigits_mono {m : ℕ} (h : m ≤ n) :
    (Nat.toDigits 10 m).length ≤ (Nat.toDigits 10 n).length :=
  (Nat.length_toDigits_le_iff (by decide) Nat.length_toDigits_pos).2
    (h.trans_lt ((Nat.length_toDigits_le_iff (by decide) Nat.length_toDigits_pos).1 le_rfl))

/-- The longest cursor is longer than any cursor that is returned, and than none. -/
theorem utf8ByteSize_cursorText_le {cursor : Option String} (h : CursorFits cursor) :
    (cursorText cursor).utf8ByteSize ≤ (cursorText (some (toString u64Max))).utf8ByteSize := by
  cases cursor with
  | none =>
    have hlength : 2 ≤ (Nat.toDigits 10 u64Max).length :=
      length_toDigits_mono (show 10 ≤ u64Max by decide)
    rw [cursorText, cursorText, utf8ByteSize_quote_toString]
    exact Nat.add_le_add_right hlength 2
  | some t =>
    obtain ⟨n, hn, rfl⟩ := h t rfl
    rw [cursorText, cursorText, utf8ByteSize_quote_toString, utf8ByteSize_quote_toString]
    exact Nat.add_le_add_right (length_toDigits_mono hn) 2

variable {page : ListInstancesResponse}

/-- The envelope and the longest cursor are reserved before any instance. -/
theorem utf8ByteSize_toText_le (h : CursorFits page.cursor) :
    page.toText.utf8ByteSize ≤
      listResponseOverhead + (commaSeparated page.instances).utf8ByteSize := by
  have hcursor := utf8ByteSize_cursorText_le h
  simp only [listResponseOverhead, ListInstancesResponse.toText, commaSeparated,
    String.utf8ByteSize_append, String.utf8ByteSize_empty]
  omega

theorem utf8ByteSize_commaSeparated_concat (raws : List String) (raw : String) :
    (commaSeparated (raws ++ [raw])).utf8ByteSize =
      (commaSeparated raws).utf8ByteSize + raw.utf8ByteSize + if raws.isEmpty then 0 else 1 := by
  induction raws with
  | nil => simp [commaSeparated]
  | cons first raws ih =>
    cases raws with
    | nil =>
      simp only [singleton_append, commaSeparated, String.utf8ByteSize_append,
        isEmpty_cons, Bool.false_eq_true, if_false]
      change _ + 1 + _ = _
      omega
    | cons second raws =>
      simp only [cons_append, commaSeparated, String.utf8ByteSize_append,
        isEmpty_cons, Bool.false_eq_true, if_false] at ih ⊢
      omega

/-! ## What a listing leaves as it is -/

/-- Whether a state belongs to an instance that a listing shows. -/
def visible (state : Fields) : Bool := !isPendingCreate state && !state.isEmpty

/-- From one store to another, nothing but pending creates has been removed. -/
structure Kept (s s' : Store) : Prop where
  index : s'.index = s.index
  states : ∀ scope, isPendingCreate (s.states (stateKey scope)) = false →
    s'.states (stateKey scope) = s.states (stateKey scope)
  payloads : ∀ scope, isPendingCreate (s.states (stateKey scope)) = false →
    s'.payloads (payloadsKey scope) = s.payloads (payloadsKey scope)
  pending : ∀ scope, isPendingCreate (s.states (stateKey scope)) = true →
    s'.states (stateKey scope) = s.states (stateKey scope) ∨ s'.states (stateKey scope) = []

theorem Kept.refl (s : Store) : Kept s s :=
  ⟨rfl, fun _ _ => rfl, fun _ _ => rfl, fun _ _ => .inl rfl⟩

variable {s s' : Store}

theorem Kept.trans {s'' : Store} (h : Kept s s') (h' : Kept s' s'') : Kept s s'' where
  index := h'.index.trans h.index
  states scope hp := by
    rw [h'.states scope (by rw [h.states scope hp]; exact hp), h.states scope hp]
  payloads scope hp := by
    rw [h'.payloads scope (by rw [h.states scope hp]; exact hp), h.payloads scope hp]
  pending scope hp := by
    rcases h.pending scope hp with heq | hnil
    · rw [← heq]
      exact h'.pending scope (by rw [heq]; exact hp)
    · -- what has been removed stays away
      exact .inr ((h'.states scope (by rw [hnil]; rfl)).trans hnil)

theorem stateKey_inj {scope scope' : String} :
    stateKey scope = stateKey scope' ↔ scope = scope' := by
  simp [stateKey]

theorem payloadsKey_inj {scope scope' : String} :
    payloadsKey scope = payloadsKey scope' ↔ scope = scope' := by
  simp [payloadsKey]

theorem kept_cleanupPendingCreate (scope token : String) (s : Store) :
    Kept s (cleanupPendingCreate scope token s) := by
  rw [cleanupPendingCreate]
  split
  next h =>
    have hne : ∀ other, isPendingCreate (s.states (stateKey other)) = false → other ≠ scope := by
      rintro other hp rfl
      cases h.2.1.symm.trans hp
    refine ⟨rfl, fun other hp => ?_, fun other hp => ?_, fun other _ => ?_⟩
    · exact if_neg (mt stateKey_inj.1 (hne other hp))
    · exact if_neg (mt payloadsKey_inj.1 (hne other hp))
    · by_cases heq : stateKey other = stateKey scope
      · exact .inr (if_pos heq)
      · exact .inl (if_neg heq)
  next => exact .refl s

variable {now : ℤ} {state existing : Fields}

/-- What an entry of the index is to the public, and what has been removed on the way. -/
theorem publicStateOrEmpty_ok (h : publicStateOrEmpty now state s = .ok (existing, s')) :
    Kept s s' ∧ existing = if isPendingCreate state then [] else state := by
  unfold publicStateOrEmpty cleanupExpiredPendingCreate at h
  split at h
  next hp =>
    cases h
    rw [Bool.not_eq_true'] at hp
    exact ⟨.refl s, by rw [hp]; rfl⟩
  next hp =>
    rw [Bool.not_eq_true', Bool.not_eq_false] at hp
    rw [hp, if_pos rfl]
    split at h
    · cases h
      exact ⟨.refl s, rfl⟩
    · cases hpending : pendingCreateCleanupFromState state with
      | error e => rw [hpending] at h; cases h
      | ok pending =>
        rw [hpending] at h
        cases h
        exact ⟨kept_cleanupPendingCreate _ _ s, rfl⟩

theorem isEmpty_of_not_visible (h : publicStateOrEmpty now state s = .ok (existing, s'))
    (hv : visible state = false) : existing.isEmpty = true := by
  rw [(publicStateOrEmpty_ok h).2]
  rw [visible] at hv
  cases hp : isPendingCreate state with
  | true => rfl
  | false => simpa [hp] using hv

theorem publicStateOrEmpty_of_visible (now : ℤ) (s : Store) (hv : visible state = true) :
    publicStateOrEmpty now state s = .ok (state, s) ∧ state.isEmpty = false := by
  rw [visible, Bool.and_eq_true, Bool.not_eq_true', Bool.not_eq_true'] at hv
  exact ⟨if_pos (by rw [hv.1]; rfl), hv.2⟩

variable {e : WorkflowError}

theorem publicStateOrEmpty_error (h : publicStateOrEmpty now state s = .error e)
    (s' : Store) :
    publicStateOrEmpty now state s' = .error e := by
  unfold publicStateOrEmpty cleanupExpiredPendingCreate at h ⊢
  split at h
  · cases h
  next hp =>
    rw [if_neg hp]
    split at h
    · cases h
    next hexpired =>
      rw [if_neg hexpired]
      cases hpending : pendingCreateCleanupFromState state with
      | error e' => rw [hpending] at h; exact h
      | ok pending => rw [hpending] at h; cases h

/-! ## Rows -/

variable (serde : SerdeJson) (req : WorkflowRequest)

/-- An instance with its payloads, each read on its own. -/
def fillAll (s : Store) (payloadReads : List InstancePayloadRead) (inst : InstanceResponse) :
    Except WorkflowError InstanceResponse :=
  payloadReads.foldlM (fun inst read => applyListPayloadReply serde inst read (s.payload read)) inst

/-- The text of an instance, from its state and its payloads. -/
def instanceRow (s : Store) (id : String) (state : Fields) : Except WorkflowError String := do
  let (inst, payloadReads) ← prepareListInstance req id state 0
  let inst ← fillAll serde s payloadReads inst
  return inst.toRawValue serde

/-- The state of an entry of the index. -/
def Store.stateOf (s : Store) (id : String) : Fields := s.states (stateKey (req.scope id))

/-- The row of an entry of the index. -/
def Store.row (s : Store) (id : String) : Except WorkflowError String :=
  instanceRow serde req s id (s.stateOf req id)

/-- What a call makes of an entry of the index by itself: nothing, or its row. -/
def Store.entry (now : ℤ) (s : Store) (id : String) : Except WorkflowError (Option String) := do
  let (existing, _) ← publicStateOrEmpty now (s.stateOf req id) s
  if existing.isEmpty then return none
  else return some (← instanceRow serde req s id existing)

/-- The instances that a listing shows. -/
def Store.visible (s : Store) : List String :=
  s.index.filter fun id => Listing.visible (s.stateOf req id)

variable {serde req}

/-- The position of an instance on its page only marks its readings. -/
theorem prepareListInstance_index (id : String) (state : Fields) (i : ℕ) :
    prepareListInstance req id state i = (prepareListInstance req id state 0).map
      fun p => (p.1, p.2.map fun read => { read with instanceIndex := i }) := by
  unfold prepareListInstance
  cases state.get "status" with
  | none => rfl
  | some status =>
    cases canonicalInstancePayloadsKey state req id with
    | error e => rfl
    | ok key =>
      simp only [payloadRead]
      cases state.get "outputRef" <;> cases state.get "errorRef" <;> rfl

theorem fillAll_index (s : Store) (i : ℕ) (reads : List InstancePayloadRead)
    (inst : InstanceResponse) :
    fillAll serde s (reads.map fun read => { read with instanceIndex := i }) inst =
      fillAll serde s reads inst := by
  rw [fillAll, foldlM_map]
  rfl

variable {i : ℕ} {id : String} {reads : List InstancePayloadRead}

/-- The row of an instance does not depend on its position. -/
theorem instanceRow_eq (s : Store) (id : String) (state : Fields) (i : ℕ) :
    instanceRow serde req s id state = (prepareListInstance req id state i).bind fun p =>
      (fillAll serde s p.2 p.1).map fun inst => inst.toRawValue serde := by
  rw [prepareListInstance_index, instanceRow]
  cases prepareListInstance req id state 0 with
  | error e => rfl
  | ok p =>
    change (fillAll serde s p.2 p.1 >>= fun inst => pure (inst.toRawValue serde)) =
      (fillAll serde s (p.2.map _) p.1).map _
    rw [fillAll_index]
    cases fillAll serde s p.2 p.1 <;> rfl

variable {read : InstancePayloadRead}

theorem mem_payloadRead {key name : String} {field : InstancePayloadField}
    (h : read ∈ payloadRead state key i name field) :
    read.instanceIndex = i ∧ read.payloadsKey = key := by
  unfold payloadRead at h
  split at h
  · cases h
  · rw [mem_singleton.1 h]
    exact ⟨rfl, rfl⟩

/-- The readings of an instance are marked with its position, and are of its payloads. -/
theorem prepareListInstance_reads {inst : InstanceResponse}
    (h : prepareListInstance req id state i = .ok (inst, reads)) :
    ∀ read ∈ reads, read.instanceIndex = i ∧ read.payloadsKey = payloadsKey (req.scope id) := by
  unfold prepareListInstance at h
  split at h
  · cases h
  · cases hkey : canonicalInstancePayloadsKey state req id with
    | error e => rw [hkey] at h; cases h
    | ok key =>
      obtain rfl : key = payloadsKey (req.scope id) := by
        unfold canonicalInstancePayloadsKey at hkey
        split at hkey
        · cases hkey
        · split at hkey
          · cases hkey
          · exact (Except.ok.inj hkey).symm
      rw [hkey] at h
      cases h
      intro read hread
      rcases mem_append.1 hread with hread | hread
      · exact mem_payloadRead hread
      · exact mem_payloadRead hread

theorem fillAll_congr (h : ∀ read ∈ reads, s'.payload read = s.payload read)
    (inst : InstanceResponse) :
    fillAll serde s' reads inst = fillAll serde s reads inst := by
  induction reads generalizing inst with
  | nil => rfl
  | cons read reads ih =>
    rw [fillAll, fillAll, foldlM_cons, foldlM_cons, h read mem_cons_self]
    congr 1
    funext inst
    exact ih (fun read hread => h read (mem_cons_of_mem _ hread)) inst

theorem instanceRow_congr
    (h : s'.payloads (payloadsKey (req.scope id)) = s.payloads (payloadsKey (req.scope id)))
    (state : Fields) : instanceRow serde req s' id state = instanceRow serde req s id state := by
  rw [instanceRow_eq s' id state 0, instanceRow_eq s id state 0]
  cases hprep : prepareListInstance req id state 0 with
  | error e => rfl
  | ok p =>
    refine congrArg (Except.map _) (fillAll_congr (fun read hread => ?_) p.1)
    rw [Store.payload, Store.payload, (prepareListInstance_reads hprep read hread).2, h]

section Kept

variable {s s' : Store} (h : Kept s s')
include h

theorem Kept.visible_stateOf (id : String) :
    visible (s'.stateOf req id) = visible (s.stateOf req id) := by
  rw [Store.stateOf, Store.stateOf]
  cases hp : isPendingCreate (s.states (stateKey (req.scope id))) with
  | false => rw [h.states _ hp]
  | true =>
    rcases h.pending _ hp with heq | hnil
    · rw [heq]
    · rw [hnil, visible, visible, hp]
      rfl

theorem Kept.visible : s'.visible req = s.visible req := by
  rw [Store.visible, Store.visible, h.index]
  exact filter_congr fun id _ => h.visible_stateOf id

theorem Kept.instanceRow (hv : Listing.visible (s.stateOf req id) = true) (state : Fields) :
    instanceRow serde req s' id state = instanceRow serde req s id state := by
  rw [Listing.visible, Bool.and_eq_true, Bool.not_eq_true'] at hv
  exact instanceRow_congr (h.payloads _ hv.1) state

theorem Kept.row (hv : Listing.visible (s.stateOf req id) = true) :
    s'.row serde req id = s.row serde req id := by
  rw [Store.row, h.instanceRow hv, Store.row]
  rw [Listing.visible, Bool.and_eq_true, Bool.not_eq_true'] at hv
  rw [Store.stateOf, h.states _ hv.1, Store.stateOf]

end Kept

/-! ## The first loop -/

variable (req) in
/-- The instances and the readings that the first loop makes of the visible members, the first
    of which gets the given position. -/
inductive Prepared :
    ℕ → List (ℕ × String × Fields) → List (ℕ × InstanceResponse) → List InstancePayloadRead → Prop
  | nil (i : ℕ) : Prepared i [] [] []
  | cons {i k : ℕ} {id : String} {state : Fields} {inst : InstanceResponse}
      {reads payloadReads : List InstancePayloadRead} {members : List (ℕ × String × Fields)}
      {instances : List (ℕ × InstanceResponse)}
      (head : prepareListInstance req id state i = .ok (inst, reads))
      (tail : Prepared (i + 1) members instances payloadReads) :
      Prepared i ((k, id, state) :: members) ((k, inst) :: instances) (reads ++ payloadReads)

variable {instances : List (ℕ × InstanceResponse)} {members : List (ℕ × String × Fields)}
  {payloadReads : List InstancePayloadRead}

theorem Prepared.le_instanceIndex (h : Prepared req i members instances payloadReads) :
    ∀ read ∈ payloadReads, i ≤ read.instanceIndex := by
  induction h with
  | nil => exact fun _ hread => absurd hread not_mem_nil
  | cons head tail ih =>
    intro read hread
    rcases mem_append.1 hread with hread | hread
    · exact (prepareListInstance_reads head read hread).1.ge
    · exact (Nat.le_succ _).trans (ih read hread)

/-- A member that is not visible is passed over. -/
theorem prepareListInstances_hidden {k : ℕ} {s₁ : Store}
    (hpublic : publicStateOrEmpty now state s = .ok (existing, s₁)) (hv : visible state = false)
    (members : List (ℕ × String × Fields)) (instances : List (ℕ × InstanceResponse))
    (payloadReads : List InstancePayloadRead) :
    prepareListInstances req now ((k, id, state) :: members) instances payloadReads s =
      prepareListInstances req now members instances payloadReads s₁ := by
  rw [prepareListInstances, hpublic]
  exact if_pos (isEmpty_of_not_visible hpublic hv)

/-- A member that is visible is prepared. -/
theorem prepareListInstances_visible (now : ℤ) (k : ℕ) (id : String) (hv : visible state = true)
    (members : List (ℕ × String × Fields)) (instances : List (ℕ × InstanceResponse))
    (payloadReads : List InstancePayloadRead) (s : Store) :
    prepareListInstances req now ((k, id, state) :: members) instances payloadReads s =
      (prepareListInstance req id state instances.length).bind fun p =>
        prepareListInstances req now members (instances ++ [(k, p.1)]) (payloadReads ++ p.2) s := by
  obtain ⟨hpublic, hstate⟩ := publicStateOrEmpty_of_visible now s hv
  rw [prepareListInstances, hpublic]
  exact if_neg (by rw [hstate]; exact Bool.false_ne_true)

/-- The first loop prepares the visible members, or fails because of one of the members. -/
theorem prepareListInstances_outcome (req : WorkflowRequest) (now : ℤ)
    (members : List (ℕ × String × Fields)) (instances : List (ℕ × InstanceResponse))
    (payloadReads : List InstancePayloadRead) (s : Store) :
    match prepareListInstances req now members instances payloadReads s with
    | .ok (instances', payloadReads', s') =>
      Kept s s' ∧ ∃ new reads, instances' = instances ++ new ∧
        payloadReads' = payloadReads ++ reads ∧
        Prepared req instances.length (members.filter fun m => visible m.2.2) new reads
    | .error e => ∃ m ∈ members, publicStateOrEmpty now m.2.2 s = .error e ∨
        visible m.2.2 = true ∧ ∃ i, prepareListInstance req m.2.1 m.2.2 i = .error e := by
  induction members generalizing instances payloadReads s with
  | nil => exact ⟨.refl _, [], [], (append_nil _).symm, (append_nil _).symm, .nil _⟩
  | cons m members ih =>
    obtain ⟨k, id, state⟩ := m
    cases hv : visible state with
    | false =>
      rw [filter_cons_of_neg (by rw [hv]; exact Bool.false_ne_true)]
      cases hpublic : publicStateOrEmpty now state s with
      | error e =>
        rw [prepareListInstances, hpublic]
        exact ⟨_, mem_cons_self, .inl hpublic⟩
      | ok p =>
        rw [prepareListInstances_hidden hpublic hv]
        have hrest := ih instances payloadReads p.2
        split at hrest
        · exact ⟨(publicStateOrEmpty_ok hpublic).1.trans hrest.1, hrest.2⟩
        · obtain ⟨m, hm, hrefused | hrefused⟩ := hrest
          · exact ⟨m, mem_cons_of_mem _ hm, .inl (publicStateOrEmpty_error hrefused s)⟩
          · exact ⟨m, mem_cons_of_mem _ hm, .inr hrefused⟩
    | true =>
      rw [filter_cons_of_pos (by exact hv), prepareListInstances_visible now k id hv]
      cases hprep : prepareListInstance req id state instances.length with
      | error e => exact ⟨_, mem_cons_self, .inr ⟨hv, _, hprep⟩⟩
      | ok p =>
        have hrest := ih (instances ++ [(k, p.1)]) (payloadReads ++ p.2) s
        rw [Except.bind]
        split at hrest
        · obtain ⟨hkept, new, reads, rfl, rfl, hprepared⟩ := hrest
          rw [length_append, length_singleton] at hprepared
          refine ⟨hkept, (k, p.1) :: new, p.2 ++ reads, ?_, ?_, .cons hprep hprepared⟩
          · rw [append_assoc, singleton_append]
          · rw [append_assoc]
        · obtain ⟨m, hm, hrefused⟩ := hrest
          exact ⟨m, mem_cons_of_mem _ hm, hrefused⟩

/-! ## The second loop -/

/-- The replies that have been received are those of the first readings that are left. -/
def Replies (s : Store) (rawValues : List (Option String))
    (payloadReads : List InstancePayloadRead) : Prop :=
  rawValues <+: payloadReads.map s.payload

variable {rawValues : List (Option String)}

/-- The next reply, from a batch that is read if none is left. -/
theorem Replies.next (h : Replies s rawValues (read :: payloadReads)) :
    ∃ rest, (if rawValues.isEmpty then
        readListPayloadBatch s ((read :: payloadReads).take listPayloadReadBatchSize)
      else rawValues) = s.payload read :: rest ∧ Replies s rest payloadReads := by
  cases rawValues with
  | nil => exact ⟨(payloadReads.take 31).map s.payload, rfl, take_prefix _ _ |>.map _⟩
  | cons raw rawValues =>
    obtain ⟨rfl, hrest⟩ := cons_prefix_cons.1 h
    exact ⟨rawValues, rfl, hrest⟩

variable (serde) in
/-- An instance gets its own payloads, although they are read in batches. -/
theorem fillInstance_eq {rest : List InstancePayloadRead}
    (hreads : ∀ read ∈ reads, read.instanceIndex = i)
    (hrest : ∀ read ∈ rest, read.instanceIndex ≠ i) (h : Replies s rawValues (reads ++ rest))
    (inst : InstanceResponse) :
    ∃ rawValues', Replies s rawValues' rest ∧
      fillInstance serde s i (reads ++ rest) rawValues inst =
        (fillAll serde s reads inst).map fun inst => (inst, rest, rawValues') := by
  induction reads generalizing rawValues inst with
  | nil =>
    refine ⟨rawValues, h, ?_⟩
    cases rest with
    | nil => rfl
    | cons read rest => exact if_neg (hrest read mem_cons_self)
  | cons read reads ih =>
    rw [cons_append] at h ⊢
    obtain ⟨replies, hbatch, hreplies⟩ := Replies.next h
    rw [fillInstance, if_pos (hreads read mem_cons_self)]
    simp only [hbatch]
    cases happly : applyListPayloadReply serde inst read (s.payload read) with
    | error e =>
      refine ⟨_, nil_prefix, ?_⟩
      rw [fillAll, foldlM_cons, happly]
      rfl
    | ok inst' =>
      obtain ⟨rawValues', hreplies', heq⟩ :=
        ih (fun read hread => hreads read (mem_cons_of_mem _ hread)) hreplies inst'
      refine ⟨rawValues', hreplies', ?_⟩
      rw [fillAll, foldlM_cons, happly]
      exact heq

/-- The bytes that are counted are those of the instances on the page, after the envelope. -/
def Budget (page : ListInstancesResponse) (bytes : ℕ) : Prop :=
  bytes = listResponseOverhead + (commaSeparated page.instances).utf8ByteSize ∧
    bytes ≤ maxWorkflowInstancesResponseBytes

theorem budget_empty (cursor : Option String) : Budget ⟨[], cursor⟩ listResponseOverhead :=
  ⟨rfl, by decide⟩

variable (serde) in
/-- The row of an instance fits, or it does not fit after others, or not even alone. -/
theorem appendListInstance_cases {bytes : ℕ} (h : Budget page bytes) (inst : InstanceResponse) :
    (∃ bytes', Budget { page with instances := page.instances ++ [inst.toRawValue serde] } bytes' ∧
      appendListInstance serde page bytes maxWorkflowInstancesResponseBytes inst =
        .ok (some ({ page with instances := page.instances ++ [inst.toRawValue serde] }, bytes'))) ∨
    (page.instances ≠ [] ∧
      appendListInstance serde page bytes maxWorkflowInstancesResponseBytes inst = .ok none) ∨
    (maxWorkflowInstancesResponseBytes <
        listResponseOverhead + (inst.toRawValue serde).utf8ByteSize ∧
      appendListInstance serde page bytes maxWorkflowInstancesResponseBytes inst =
        .error instanceTooLarge) := by
  obtain ⟨hbytes, hle⟩ := h
  have hmax : maxWorkflowInstancesResponseBytes < u64Max := by decide
  have hsize := utf8ByteSize_commaSeparated_concat page.instances (inst.toRawValue serde)
  simp only [appendListInstance]
  set raw := inst.toRawValue serde
  set sep := if page.instances.isEmpty then 0 else 1 with hsep
  have hnext : maxWorkflowInstancesResponseBytes < bytes + raw.utf8ByteSize + sep ∧
      maxWorkflowInstancesResponseBytes <
        saturatingAdd (saturatingAdd bytes raw.utf8ByteSize) sep ∨
      bytes + raw.utf8ByteSize + sep ≤ maxWorkflowInstancesResponseBytes ∧
        saturatingAdd (saturatingAdd bytes raw.utf8ByteSize) sep =
          bytes + raw.utf8ByteSize + sep := by
    simp only [saturatingAdd]
    omega
  rcases hnext with ⟨hlt, hlt'⟩ | ⟨hfits, hadd⟩
  · rw [if_pos hlt']
    by_cases hnil : page.instances = []
    · refine .inr (.inr ⟨?_, if_pos (by rw [hnil]; rfl)⟩)
      have hzero : (commaSeparated page.instances).utf8ByteSize = 0 := by rw [hnil]; rfl
      have hsep0 : sep = 0 := by rw [hsep, hnil]; rfl
      omega
    · exact .inr (.inl ⟨hnil, if_neg (by rwa [List.isEmpty_iff])⟩)
  · rw [hadd, if_neg (not_lt.2 hfits)]
    exact .inl ⟨_, ⟨by rw [hsize]; omega, hfits⟩, rfl⟩

variable {cursor : ℕ}

variable (serde req) in
/-- What the second loop makes of the visible members that are left: it takes some of them, and
    either none remains or the first that remains is where the next page starts. -/
structure Appended (s : Store) (cursor : ℕ) (members : List (ℕ × String × Fields))
    (page page' : ListInstancesResponse) (taken : List (ℕ × String × Fields))
    (raws : List String) : Prop where
  rows : List.Forall₂ (fun m raw => instanceRow serde req s m.2.1 m.2.2 = .ok raw) taken raws
  instances : page'.instances = page.instances ++ raws
  bytes : ∃ bytes, Budget page' bytes
  rest : members = taken ∧ page'.cursor = page.cursor ∨
    ∃ m rest, members = taken ++ m :: rest ∧ page'.instances ≠ [] ∧
      page'.cursor = some (toString (cursor + m.1))

variable {taken : List (ℕ × String × Fields)} {raws : List String}

theorem Appended.cons {k : ℕ} {raw : String} {page' : ListInstancesResponse}
    (hrow : instanceRow serde req s id state = .ok raw)
    (h : Appended serde req s cursor members
      { page with instances := page.instances ++ [raw] } page' taken raws) :
    Appended serde req s cursor ((k, id, state) :: members) page page' ((k, id, state) :: taken)
      (raw :: raws) := by
  refine ⟨.cons hrow h.rows, ?_, h.bytes, ?_⟩
  · rw [h.instances, append_assoc, singleton_append]
  · rcases h.rest with ⟨rfl, hcursor⟩ | ⟨m, rest, rfl, hcut⟩
    · exact .inl ⟨rfl, hcursor⟩
    · exact .inr ⟨m, rest, rfl, hcut⟩

variable (serde cursor) in
/-- The second loop ends with a page, or fails because of a member: its payloads cannot be read,
    or its row does not fit into a page of its own. -/
theorem appendListInstances_outcome {bytes : ℕ}
    (hprepared : Prepared req i members instances payloadReads)
    (hreplies : Replies s rawValues payloadReads) (hbudget : Budget page bytes) :
    match appendListInstances serde s cursor i instances payloadReads rawValues page bytes with
    | .ok page' => ∃ taken raws, Appended serde req s cursor members page page' taken raws
    | .error e => ∃ m ∈ members, instanceRow serde req s m.2.1 m.2.2 = .error e ∨
        e = instanceTooLarge ∧ ∃ raw, instanceRow serde req s m.2.1 m.2.2 = .ok raw ∧
          maxWorkflowInstancesResponseBytes < listResponseOverhead + raw.utf8ByteSize := by
  induction hprepared generalizing rawValues page bytes with
  | nil => exact ⟨[], [], .nil, (append_nil _).symm, ⟨bytes, hbudget⟩, .inl ⟨rfl, rfl⟩⟩
  | @cons i k id state inst reads payloadReads members instances head tail ih =>
    obtain ⟨rawValues', hreplies', hfill⟩ := fillInstance_eq serde
      (fun read hread => (prepareListInstance_reads head read hread).1)
      (fun read hread => Nat.ne_of_gt (tail.le_instanceIndex read hread)) hreplies inst
    have hrow : instanceRow serde req s id state = _ := instanceRow_eq s id state i
    rw [head] at hrow
    simp only [Except.bind] at hrow
    rw [appendListInstances, hfill]
    cases hall : fillAll serde s reads inst with
    | error e =>
      rw [hall] at hrow
      exact ⟨_, mem_cons_self, .inl hrow⟩
    | ok filled =>
      rw [hall] at hrow
      simp only [Except.map, bind, Except.bind]
      -- the row is added, or it is left for the next page, or it does not fit into any
      rcases appendListInstance_cases serde hbudget filled with
        ⟨bytes', hbudget', happend⟩ | ⟨hne, happend⟩ | ⟨hlarge, happend⟩
      · simp only [happend]
        have hrest := ih hreplies' hbudget'
        split at hrest
        · obtain ⟨taken, raws, happended⟩ := hrest
          exact ⟨_, _, .cons hrow happended⟩
        · obtain ⟨m, hm, hcause⟩ := hrest
          exact ⟨m, mem_cons_of_mem _ hm, hcause⟩
      · simp only [happend]
        exact ⟨[], [], .nil, (append_nil _).symm, ⟨bytes, hbudget⟩,
          .inr ⟨_, members, rfl, hne, rfl⟩⟩
      · simp only [happend]
        exact ⟨_, mem_cons_self, .inr ⟨trivial, _, hrow, hlarge⟩⟩

/-! ## A page -/

/-- When the visible entries of a list are cut at one of them, what comes before the cut are the
    visible ones among the entries before it. -/
theorem filter_zipIdx_cut {α : Type} {p : α → Bool} {l : List α} {taken rest : List (α × ℕ)}
    {a : α} {k : ℕ} (h : (l.zipIdx.filter fun m => p m.1) = taken ++ (a, k) :: rest) :
    k < l.length ∧ taken.map Prod.fst = (l.take k).filter p := by
  obtain ⟨l₁, l₂, hl, htaken, hcut⟩ := filter_eq_append_iff.1 h
  obtain ⟨l₃, l₄, rfl, hskip, -, -⟩ := filter_eq_cons_iff.1 hcut
  have hget : l.zipIdx[(l₁ ++ l₃).length]? = some (a, k) := by
    rw [hl, ← append_assoc, List.getElem?_append_right le_rfl, Nat.sub_self]
    rfl
  have hk : k = (l₁ ++ l₃).length ∧ l[k]? = some a := by
    rw [List.getElem?_zipIdx, Option.map_eq_some_iff] at hget
    obtain ⟨b, hb, heq⟩ := hget
    cases heq
    rw [Nat.zero_add]
    exact ⟨rfl, hb⟩
  have htake : l.take k = (l₁ ++ l₃).map Prod.fst := by
    conv_lhs => rw [← zipIdx_map_fst 0 l, hl, ← append_assoc, map_append, hk.1]
    exact take_left' (length_map _)
  refine ⟨(List.getElem?_eq_some_iff.1 hk.2).1, ?_⟩
  have hskip : l₃.filter (fun m => p m.1) = [] := filter_eq_nil_iff.2 hskip
  rw [htake, filter_map, ← htaken]
  change _ = ((l₁ ++ l₃).filter fun m => p m.1).map Prod.fst
  rw [filter_append, hskip, append_nil]

theorem saturatingAdd_eq (hlimit : limit ≤ maxInstancesLimit) (hcursor : cursor ≤ i64Max) :
    saturatingAdd cursor limit = cursor + limit := by
  simp only [saturatingAdd, u64Max, maxInstancesLimit, i64Max] at *
  omega

/-- The entries of the index that a call looks at, and whether there are more. -/
theorem zrange_take (s : Store) (hlimit : limit ≤ maxInstancesLimit) (hcursor : cursor ≤ i64Max) :
    (s.zrange cursor (min (saturatingAdd cursor limit) i64Max)).take limit =
        (s.index.drop cursor).take limit ∧
      (limit < (s.zrange cursor (min (saturatingAdd cursor limit) i64Max)).length ↔
        cursor + limit < s.index.length) := by
  have hadd := saturatingAdd_eq hlimit hcursor
  have hlength := s.length_le
  have hdrop : (s.index.drop cursor).length = s.index.length - cursor := length_drop
  have hfound : s.zrange cursor (min (saturatingAdd cursor limit) i64Max) =
      (s.index.drop cursor).take (limit + 1) := by
    rw [Store.zrange, hadd]
    rcases le_total (cursor + limit) i64Max with hle | hle
    · rw [min_eq_left hle]
      congr 1
      omega
    · rw [min_eq_right hle, take_of_length_le (by omega), take_of_length_le (by omega)]
  rw [hfound, take_take, length_take, hdrop]
  refine ⟨by rw [min_eq_left (Nat.le_succ _)], by omega⟩

variable (serde req) in
/-- A page at a cursor, after which the entries of the index up to `stop` have been consumed. -/
structure PageAt (s : Store) (limit cursor : ℕ) (page : ListInstancesResponse) (stop : ℕ) :
    Prop where
  rows : List.Forall₂ (fun id raw => s.row serde req id = .ok raw)
    (((s.index.drop cursor).take (stop - cursor)).filter fun id => visible (s.stateOf req id))
    page.instances
  next : page.cursor = none ∧ s.index.length ≤ stop ∨
    page.cursor = some (toString stop) ∧ cursor < stop ∧ stop < s.index.length
  count : page.instances.length ≤ limit
  bytes : page.toText.utf8ByteSize ≤ maxWorkflowInstancesResponseBytes

/-- The members of a page with their positions and their states. -/
def listMembers (req : WorkflowRequest) (s : Store) (members : List String) :
    List (ℕ × String × Fields) :=
  members.zipIdx.map fun m => (m.2, m.1, s.stateOf req m.1)

theorem zip_states (s : Store) (members : List String) :
    ((members.zip (members.map fun id => s.states (stateKey (req.scope id)))).zipIdx.map
      fun m => (m.2, m.1)) = listMembers req s members := by
  rw [← map_prod_left_eq_zip, zipIdx_map, map_map]
  rfl

theorem filter_listMembers (s : Store) (members : List String) :
    ((listMembers req s members).filter fun m => visible m.2.2) =
      (members.zipIdx.filter fun m => visible (s.stateOf req m.1)).map
        fun m => (m.2, m.1, s.stateOf req m.1) := by
  rw [listMembers, filter_map]
  rfl

/-- The page that the first loop leaves to the second one. -/
def emptyPage (s : Store) (limit cursor : ℕ) : ListInstancesResponse :=
  ⟨[], if cursor + limit < s.index.length then some (toString (cursor + limit)) else none⟩

/-- A page is made by the two loops, over the entries that its cursor and its limit select. -/
theorem listPage_eq (hlimit : limit ≤ maxInstancesLimit) (hcursor : cursor ≤ i64Max) :
    listPage serde req now limit cursor s =
      (prepareListInstances req now (listMembers req s ((s.index.drop cursor).take limit)) [] []
        s).bind fun p =>
          (appendListInstances serde p.2.2 cursor 0 p.1 p.2.1 [] (emptyPage s limit cursor)
            listResponseOverhead).map fun page => (page, p.2.2) := by
  obtain ⟨htake, hmore⟩ := zrange_take s hlimit hcursor
  have hpage : (⟨[], if decide (limit < (s.zrange cursor
        (min (saturatingAdd cursor limit) i64Max)).length) then
      some (toString (saturatingAdd cursor ((s.index.drop cursor).take limit).length)) else none⟩ :
      ListInstancesResponse) = emptyPage s limit cursor := by
    congr 1
    by_cases hlt : cursor + limit < s.index.length
    · have hlen : ((s.index.drop cursor).take limit).length = limit := by
        rw [length_take, length_drop]
        omega
      rw [if_pos (decide_eq_true (hmore.2 hlt)), if_pos hlt, hlen, saturatingAdd_eq hlimit hcursor]
    · rw [if_neg (by rw [decide_eq_true_eq]; exact mt hmore.1 hlt), if_neg hlt]
  simp only [listPage, htake, zip_states, hpage]
  cases prepareListInstances req now (listMembers req s ((s.index.drop cursor).take limit)) [] []
    s with
  | error e => rfl
  | ok p =>
    change (appendListInstances serde p.2.2 cursor 0 p.1 p.2.1 [] (emptyPage s limit cursor)
      listResponseOverhead >>= fun page => pure (page, p.2.2)) = Except.map _ _
    cases appendListInstances serde p.2.2 cursor 0 p.1 p.2.1 [] (emptyPage s limit cursor)
      listResponseOverhead with
    | error e => rfl
    | ok page => rfl

/-- The rows of visible members are those of the store as it was before the call. -/
theorem rows_of_kept (hkept : Kept s s') {taken : List (String × ℕ)}
    (hv : ∀ m ∈ taken, visible (s.stateOf req m.1) = true)
    (h : List.Forall₂ (fun m raw => instanceRow serde req s' m.2.1 m.2.2 = .ok raw)
      (taken.map fun m => (m.2, m.1, s.stateOf req m.1)) raws) :
    List.Forall₂ (fun id raw => s.row serde req id = .ok raw) (taken.map Prod.fst) raws := by
  rw [forall₂_map_left_iff] at h ⊢
  induction h with
  | nil => exact .nil
  | cons hrow _ ih =>
    refine .cons ?_ (ih fun m hm => hv m (mem_cons_of_mem _ hm))
    rw [Store.row, ← hkept.instanceRow (hv _ mem_cons_self)]
    exact hrow

theorem map_fst_filter_zipIdx {α : Type} (p : α → Bool) (l : List α) :
    (l.zipIdx.filter fun m => p m.1).map Prod.fst = l.filter p := by
  conv_rhs => rw [← zipIdx_map_fst 0 l, filter_map]
  rfl

/-- A page with the rows of the first entries after its cursor. The response fits, as its cursor
    is not longer than the one that was reserved. -/
theorem pageAt_of_rows {k : ℕ} (hk : k ≤ limit) (hinstances : page.instances = raws)
    (hrows : List.Forall₂ (fun id raw => s.row serde req id = .ok raw)
      (((s.index.drop cursor).take k).filter fun id => visible (s.stateOf req id)) raws)
    (hnext : page.cursor = none ∧ s.index.length ≤ cursor + k ∨
      page.cursor = some (toString (cursor + k)) ∧ cursor < cursor + k ∧
        cursor + k < s.index.length)
    (hbudget : ∃ bytes, Budget page bytes) : PageAt serde req s limit cursor page (cursor + k) := by
  refine ⟨?_, hnext, ?_, ?_⟩
  · rw [Nat.add_sub_cancel_left, hinstances]
    exact hrows
  · rw [hinstances, ← hrows.length_eq]
    exact ((length_filter_le _ _).trans (length_take_le _ _)).trans hk
  · obtain ⟨bytes, hbytes, hle⟩ := hbudget
    refine (utf8ByteSize_toText_le fun t ht => ?_).trans (hbytes ▸ hle)
    rcases hnext with ⟨hnone, -⟩ | ⟨hsome, -, hlt⟩
    · cases hnone.symm.trans ht
    · cases hsome.symm.trans ht
      exact ⟨_, (hlt.le.trans s.length_le).trans (by decide), rfl⟩

/-- What a page holds, from what the second loop took. -/
theorem pageAt_of_appended (hkept : Kept s s') (hpos : 1 ≤ limit)
    (h : Appended serde req s' cursor
      ((listMembers req s ((s.index.drop cursor).take limit)).filter fun m => visible m.2.2)
      (emptyPage s limit cursor) page taken raws) :
    ∃ stop, PageAt serde req s limit cursor page stop := by
  have hinstances : page.instances = raws := h.instances
  have hrows := h.rows
  rw [filter_listMembers] at h
  rcases h.rest with ⟨rfl, hcursor⟩ | ⟨m, rest, hcut, hne, hcursor⟩
  · -- all the entries that the limit allows have been consumed
    have hrows := rows_of_kept hkept (fun m hm => (mem_filter.1 hm).2) hrows
    rw [map_fst_filter_zipIdx (fun id => visible (s.stateOf req id))] at hrows
    refine ⟨_, pageAt_of_rows le_rfl hinstances hrows ?_ h.bytes⟩
    rw [hcursor, emptyPage]
    by_cases hlt : cursor + limit < s.index.length
    · exact .inr ⟨if_pos hlt, by omega, hlt⟩
    · exact .inl ⟨if_neg hlt, not_lt.1 hlt⟩
  · -- the page is cut before the entry `m`
    obtain ⟨tk, cut, hfilter, rfl, hm⟩ := map_eq_append_iff.1 hcut
    obtain ⟨⟨id, k⟩, rest', rfl, rfl, -⟩ := map_eq_cons_iff.1 hm
    obtain ⟨hk, htaken⟩ := filter_zipIdx_cut (p := fun id => visible (s.stateOf req id)) hfilter
    have hvisible : ∀ m ∈ tk, visible (s.stateOf req m.1) = true := fun m hm =>
      (mem_filter.1 (hfilter ▸ mem_append_left _ hm : m ∈ filter _ _)).2
    have hrows := rows_of_kept hkept hvisible hrows
    rw [length_take, length_drop] at hk
    rw [htaken, take_take, min_eq_left (by omega)] at hrows
    have hpositive : 0 < k := by
      rcases Nat.eq_zero_or_pos k with rfl | hpos
      · cases hrows
        exact absurd hinstances hne
      · exact hpos
    exact ⟨_, pageAt_of_rows (by omega) hinstances hrows
      (.inr ⟨hcursor, by omega, by omega⟩) h.bytes⟩

/-! ## Calls that fail -/

variable (serde req) in
/-- Why a call fails that has been accepted: an entry of the index cannot be answered, or a
    visible one has a row that does not fit into the response that is reserved for it. -/
inductive Failure (s : Store) (now : ℤ) : WorkflowError → Prop
  | entry {id : String} {e : WorkflowError} (mem : id ∈ s.index)
      (error : s.entry serde req now id = .error e) : Failure s now e
  | tooLarge {id raw : String} (mem : id ∈ s.visible req) (row : s.row serde req id = .ok raw)
      (bytes : maxWorkflowInstancesResponseBytes < listResponseOverhead + raw.utf8ByteSize) :
      Failure s now instanceTooLarge

theorem entry_of_visible (now : ℤ) (hv : visible (s.stateOf req id) = true) :
    s.entry serde req now id = (s.row serde req id).map some := by
  obtain ⟨hpublic, hstate⟩ := publicStateOrEmpty_of_visible now s hv
  rw [Store.entry, hpublic, Store.row]
  change (if (s.stateOf req id).isEmpty then _ else _) = _
  rw [if_neg (by rw [hstate]; exact Bool.false_ne_true)]
  cases instanceRow serde req s id (s.stateOf req id) <;> rfl

theorem entry_of_refused (h : publicStateOrEmpty now (s.stateOf req id) s = .error e) :
    s.entry serde req now id = .error e := by
  rw [Store.entry, h]
  rfl

theorem mem_listMembers {m : ℕ × String × Fields}
    (h : m ∈ listMembers req s ((s.index.drop cursor).take limit)) :
    m.2.1 ∈ s.index ∧ m.2.2 = s.stateOf req m.2.1 := by
  obtain ⟨n, hn, rfl⟩ := mem_map.1 h
  exact ⟨mem_of_mem_drop (mem_of_mem_take (fst_mem_of_mem_zipIdx hn)), rfl⟩

/-- A call that answers has consumed the entries from its cursor to the next one, and one that
    fails came to an entry that made it fail. -/
theorem listPage_outcome (s : Store) (now : ℤ) (hpos : 1 ≤ limit)
    (hlimit : limit ≤ maxInstancesLimit) (hcursor : cursor ≤ i64Max) :
    match listPage serde req now limit cursor s with
    | .ok (page, s') => Kept s s' ∧ ∃ stop, PageAt serde req s limit cursor page stop
    | .error e => Failure serde req s now e := by
  rw [listPage_eq hlimit hcursor]
  have hfirst := prepareListInstances_outcome req now
    (listMembers req s ((s.index.drop cursor).take limit)) [] [] s
  cases hprepare : prepareListInstances req now
      (listMembers req s ((s.index.drop cursor).take limit)) [] [] s with
  | error e =>
    rw [hprepare] at hfirst
    obtain ⟨m, hm, hcause⟩ := hfirst
    obtain ⟨hmem, hstate⟩ := mem_listMembers hm
    rw [hstate] at hcause
    rcases hcause with hrefused | ⟨hv, i, hprep⟩
    · exact .entry hmem (entry_of_refused hrefused)
    · refine .entry hmem ?_
      rw [entry_of_visible now hv, Store.row, instanceRow_eq _ _ _ i, hprep]
      rfl
  | ok p =>
    obtain ⟨instances, payloadReads, s₁⟩ := p
    rw [hprepare] at hfirst
    obtain ⟨hkept, new, reads, rfl, rfl, hprepared⟩ := hfirst
    have hbudget : Budget (emptyPage s limit cursor) _ := budget_empty _
    have hsecond := appendListInstances_outcome serde cursor hprepared (s := s₁) nil_prefix hbudget
    rw [length_nil] at hsecond
    simp only [Except.bind]
    split at hsecond
    next page happend =>
      obtain ⟨taken, raws, happended⟩ := hsecond
      rw [happend]
      exact ⟨hkept, pageAt_of_appended hkept hpos happended⟩
    next e happend =>
      obtain ⟨m, hm, hcause⟩ := hsecond
      rw [happend]
      obtain ⟨hm, hv⟩ := mem_filter.1 hm
      obtain ⟨hmem, hstate⟩ := mem_listMembers hm
      rw [hstate] at hv hcause
      rw [hkept.instanceRow hv] at hcause
      rcases hcause with hrow | ⟨rfl, raw, hrow, hbytes⟩
      · refine .entry hmem ?_
        rw [entry_of_visible now hv, Store.row, hrow]
        rfl
      · exact .tooLarge (mem_filter.2 ⟨hmem, hv⟩) hrow hbytes

/-- An entry that cannot be answered is a pending create that is refused, or a visible instance
    without a row. -/
theorem entry_error (h : s.entry serde req now id = .error e) :
    isPendingCreate (s.stateOf req id) = true ∧
        publicStateOrEmpty now (s.stateOf req id) s = .error e ∨
      visible (s.stateOf req id) = true ∧ s.row serde req id = .error e := by
  cases hv : visible (s.stateOf req id) with
  | true =>
    rw [entry_of_visible now hv] at h
    cases hrow : s.row serde req id with
    | error e' =>
      rw [hrow] at h
      cases h
      exact .inr ⟨rfl, rfl⟩
    | ok raw => rw [hrow] at h; cases h
  | false =>
    cases hpublic : publicStateOrEmpty now (s.stateOf req id) s with
    | error e' =>
      rw [Store.entry, hpublic] at h
      cases h
      refine .inl ⟨Bool.of_not_eq_false fun hp => ?_, rfl⟩
      rw [publicStateOrEmpty, hp] at hpublic
      cases hpublic
    | ok p =>
      obtain ⟨existing, s₁⟩ := p
      -- an entry that is not visible is passed over
      rw [Store.entry, hpublic] at h
      change (if existing.isEmpty then _ else _) = _ at h
      cases (if_pos (isEmpty_of_not_visible hpublic hv)).symm.trans h

/-- What fails after pending creates have been removed would have failed before. -/
theorem Kept.failure (h : Kept s s') (hf : Failure serde req s' now e) :
    Failure serde req s now e := by
  cases hf with
  | @entry id e mem error =>
    refine .entry (h.index ▸ mem) ?_
    rcases entry_error error with ⟨hp, hrefused⟩ | ⟨hv, hrow⟩
    · have hstate : s'.stateOf req id = s.stateOf req id := by
        cases hpending : isPendingCreate (s.stateOf req id) with
        | false => exact h.states _ hpending
        | true =>
          rcases h.pending _ hpending with heq | hnil
          · exact heq
          · rw [Store.stateOf, hnil] at hp
            cases hp
      rw [hstate] at hrefused
      exact entry_of_refused (publicStateOrEmpty_error hrefused s)
    · rw [h.visible_stateOf] at hv
      rw [entry_of_visible now hv, ← h.row hv, hrow]
      rfl
  | tooLarge mem row bytes =>
    rw [h.visible] at mem
    exact .tooLarge mem (by rw [← h.row (mem_filter.1 mem).2]; exact row) bytes

/-! ## Calls -/

theorem parseLimit_of_options (h : workflowInstancesOptions options = .ok (limit, cursor)) :
    parseLimit options = .ok limit := by
  rw [workflowInstancesOptions] at h
  cases hl : parseLimit options with
  | error e => rw [hl] at h; cases h
  | ok n =>
    rw [hl] at h
    cases hc : parseCursor options <;> rw [hc] at h <;> cases h
    rfl

theorem listInstances_of_options (h : workflowInstancesOptions options = .ok (limit, cursor))
    (hv : req.verify = .ok ()) (now : ℤ) (s : Store) :
    listInstances serde req now options s =
      if cursor ≤ i64Max then listPage serde req now limit cursor s
      else .error (.invalidRequest "instances cursor is invalid") := by
  rw [listInstances, h, hv]
  rfl

variable (serde req) in
/-- What a call can come to: a page at its cursor, or an error that has a reason. -/
inductive CallOutcome (s : Store) (now : ℤ) (options : Json) :
    Except WorkflowError (ListInstancesResponse × Store) → Prop
  | page {limit cursor stop : ℕ} {page : ListInstancesResponse} {s' : Store}
      (accepted : workflowInstancesOptions options = .ok (limit, cursor)) (kept : Kept s s')
      (at_cursor : PageAt serde req s limit cursor page stop) :
      CallOutcome s now options (.ok (page, s'))
  | options {e : WorkflowError} (refused : workflowInstancesOptions options = .error e) :
      CallOutcome s now options (.error e)
  | verify {e : WorkflowError} (refused : req.verify = .error e) :
      CallOutcome s now options (.error e)
  | cursor {limit cursor : ℕ} (parsed : workflowInstancesOptions options = .ok (limit, cursor))
      (large : i64Max < cursor) :
      CallOutcome s now options (.error (.invalidRequest "instances cursor is invalid"))
  | failure {e : WorkflowError} (why : Failure serde req s now e) :
      CallOutcome s now options (.error e)

variable (serde req) in
theorem callOutcome (s : Store) (now : ℤ) (options : Json) :
    CallOutcome serde req s now options (listInstances serde req now options s) := by
  cases ho : workflowInstancesOptions options with
  | error e =>
    rw [listInstances, ho]
    exact .options ho
  | ok p =>
    obtain ⟨limit, cursor⟩ := p
    cases hv : req.verify with
    | error e =>
      rw [listInstances, ho, hv]
      exact .verify hv
    | ok u =>
      rw [listInstances_of_options ho hv]
      obtain ⟨hpos, hlimit⟩ := parseLimit_bounds (parseLimit_of_options ho)
      by_cases hcursor : cursor ≤ i64Max
      · rw [if_pos hcursor]
        have hpage := @listPage_outcome limit serde req cursor s now hpos hlimit hcursor
        split at hpage
        next heq =>
          obtain ⟨hkept, stop, hat⟩ := hpage
          exact heq ▸ .page ho hkept hat
        next heq => exact heq ▸ .failure hpage
      · rw [if_neg hcursor]
        exact .cursor ho (not_le.1 hcursor)

/-! ## Following the cursors -/

variable (serde req) in
/-- The pages that a client has, from a cursor on: together they hold the rows of the visible
    instances from there on, in the order of the index, each within the limits, and every cursor
    lies after the one before it. -/
structure Listed (s : Store) (limit cursor : ℕ) (pages : List ListInstancesResponse) : Prop where
  rows : List.Forall₂ (fun id raw => s.row serde req id = .ok raw)
    ((s.index.drop cursor).filter fun id => visible (s.stateOf req id))
    (pages.flatMap fun page => page.instances)
  count : ∀ page ∈ pages, page.instances.length ≤ limit
  bytes : ∀ page ∈ pages, page.toText.utf8ByteSize ≤ maxWorkflowInstancesResponseBytes
  cursors : ((cursor :: pages.filterMap fun page => page.cursor.bind parseU64)).IsChain (· < ·)

variable {pages : List ListInstancesResponse}

theorem Kept.listed (h : Kept s s') (hl : Listed serde req s' limit cursor pages) :
    Listed serde req s limit cursor pages := by
  refine ⟨?_, hl.count, hl.bytes, hl.cursors⟩
  have hrows := hl.rows
  rw [h.index, filter_congr fun id _ => h.visible_stateOf id] at hrows
  have hvisible := (forall₂_and_left _ _).2 ⟨fun id hid => (mem_filter.1 hid).2, hrows⟩
  exact hvisible.imp fun id raw hrow => h.row hrow.1 ▸ hrow.2

theorem PageAt.listed_last {stop : ℕ} (h : PageAt serde req s limit cursor page stop)
    (hnone : page.cursor = none) (hstop : s.index.length ≤ stop) :
    Listed serde req s limit cursor [page] where
  rows := by
    have hrows := h.rows
    rw [take_of_length_le (by rw [length_drop]; omega)] at hrows
    rw [flatMap_singleton]
    exact hrows
  count := forall_mem_singleton.2 h.count
  bytes := forall_mem_singleton.2 h.bytes
  cursors := by
    rw [filterMap_cons, hnone]
    exact .singleton cursor

/-- A page in front of the pages that follow it. -/
theorem PageAt.listed_cons {stop : ℕ} (h : PageAt serde req s limit cursor page stop)
    (hsome : page.cursor = some (toString stop)) (hlt : cursor < stop) (hstop : stop ≤ u64Max)
    (hl : Listed serde req s limit stop pages) :
    Listed serde req s limit cursor (page :: pages) where
  rows := by
    have hsplit : s.index.drop cursor =
        (s.index.drop cursor).take (stop - cursor) ++ s.index.drop stop := by
      conv_lhs => rw [← take_append_drop (stop - cursor) (s.index.drop cursor)]
      rw [drop_drop, Nat.add_sub_cancel' hlt.le]
    rw [hsplit, filter_append, flatMap_cons]
    exact rel_append h.rows hl.rows
  count := forall_mem_cons.2 ⟨h.count, hl.count⟩
  bytes := forall_mem_cons.2 ⟨h.bytes, hl.bytes⟩
  cursors := by
    have hparse : page.cursor.bind parseU64 = some stop := by
      rw [hsome]
      exact parseU64_toString hstop
    rw [filterMap_cons, hparse]
    exact isChain_cons_cons.2 ⟨hlt, hl.cursors⟩

variable (serde) in
/-- A client that follows the cursors from one that lies in the index comes to an end. The
    induction is on the number of calls, of which as many are needed as there are entries left. -/
theorem follow_outcome {limit : Option Json} (hlimit : parseLimit (listOptions limit none) = .ok n)
    (hverify : req.verify = .ok ()) (clock : ℕ → ℤ) {calls c : ℕ} {cursor : Option String}
    (hcursor : parseCursor (listOptions limit cursor) = .ok c) (hc : c ≤ s.index.length)
    (hcalls : s.index.length - c < calls) :
    ∃ r, follow serde req limit clock calls cursor s = some r ∧
      (∀ pages, r = .ok pages → Listed serde req s n c pages) ∧
      ∀ e, r = .error e → ∃ now, Failure serde req s now e := by
  induction calls generalizing cursor c s with
  | zero => exact absurd hcalls (Nat.not_lt_zero _)
  | succ calls ih =>
    have hoptions : workflowInstancesOptions (listOptions limit cursor) = .ok (n, c) := by
      rw [workflowInstancesOptions, parseLimit_listOptions limit cursor none, hlimit, hcursor]
      rfl
    have hout := callOutcome serde req s (clock calls) (listOptions limit cursor)
    rw [follow]
    cases hcall : listInstances serde req (clock calls) (listOptions limit cursor) s with
    | error e =>
      rw [hcall] at hout
      refine ⟨.error e, rfl, fun pages h => (by cases h), fun e' he => ?_⟩
      cases he
      cases hout with
      | options refused => cases hoptions.symm.trans refused
      | verify refused => cases hverify.symm.trans refused
      | cursor parsed large =>
        cases hoptions.symm.trans parsed
        exact absurd (hc.trans s.length_le) (not_le.2 large)
      | failure why => exact ⟨_, why⟩
    | ok p =>
      rw [hcall] at hout
      cases hout with
      | @page _ _ stop page s' accepted kept hat =>
        cases hoptions.symm.trans accepted
        rcases hat.next with ⟨hnone, hstop⟩ | ⟨hsome, hlt, hstop⟩
        · simp only [hnone]
          refine ⟨_, rfl, fun pages h => ?_, fun e h => by cases h⟩
          cases h
          exact hat.listed_last hnone hstop
        · have hbound : stop ≤ u64Max := (hstop.le.trans s.length_le).trans (by decide)
          obtain ⟨r, hfollow, hok, herror⟩ := ih (s := s') (parseCursor_listOptions hbound)
            (by rw [kept.index]; exact hstop.le) (by rw [kept.index]; omega)
          simp only [hsome, hfollow, Option.map_some]
          refine ⟨_, rfl, fun pages h => ?_, fun e h => ?_⟩
          · cases r with
            | error e => cases h
            | ok rest =>
              cases h
              exact hat.listed_cons hsome hlt hbound (kept.listed (hok rest rfl))
          · cases r with
            | error e' =>
              cases h
              obtain ⟨now, why⟩ := herror e rfl
              exact ⟨now, kept.failure why⟩
            | ok rest => cases h

/-! ## The bytes of a row -/

theorem utf8ByteSize_ofList_le (l : List Char) :
    (String.ofList l).utf8ByteSize ≤ 4 * l.length := by
  induction l with
  | nil => exact le_rfl
  | cons c l ih =>
    have := c.utf8Size_le_four
    rw [utf8ByteSize_ofList_cons, length_cons]
    omega

/-- A character takes at most six in a JSON string. -/
theorem utf8ByteSize_quote_le (text : String) :
    (quote text).utf8ByteSize ≤ 24 * text.utf8ByteSize + 2 := by
  have hescape : ∀ l : List Char, (String.ofList (l.flatMap escapeChar)).utf8ByteSize ≤
      24 * (String.ofList l).utf8ByteSize := by
    intro l
    induction l with
    | nil => exact le_rfl
    | cons c l ih =>
      have hpos := c.utf8Size_pos
      have hlength : (escapeChar c).length ≤ 6 := by
        unfold escapeChar
        split_ifs <;> simp
      have hsize := utf8ByteSize_ofList_le (escapeChar c)
      rw [flatMap_cons, String.ofList_append, String.utf8ByteSize_append, utf8ByteSize_ofList_cons]
      omega
  have := hescape text.toList
  rw [String.ofList_toList] at this
  rw [quote, String.utf8ByteSize_append, String.utf8ByteSize_append]
  change 1 + _ + 1 ≤ _
  omega

/-- The bytes of the output and of the error of an instance. -/
def InstanceResponse.valueBytes (serde : SerdeJson) (inst : InstanceResponse) : ℕ :=
  (optionText serde inst.output).utf8ByteSize + (optionText serde inst.error).utf8ByteSize

theorem utf8ByteSize_toRawValue (inst : InstanceResponse) : (inst.toRawValue serde).utf8ByteSize =
    (quote inst.id).utf8ByteSize + (quote inst.status).utf8ByteSize +
      inst.valueBytes serde + 36 := by
  simp only [InstanceResponse.toRawValue, InstanceResponse.valueBytes, String.utf8ByteSize_append]
  change 6 + _ + 10 + _ + 10 + _ + 9 + _ + 1 = _
  omega

/-- What is assumed of the JSON library: a payload is printed in at most five times the bytes of
    the text that it was parsed from, and an error within what its escapes may take. -/
structure SerdeJson.Compact (serde : SerdeJson) : Prop where
  payload : ∀ raw value, serde.fromStr raw = .ok value →
    (serde.toText value).utf8ByteSize ≤ 5 * raw.utf8ByteSize
  error : ∀ code message, (serde.toText (errorValue code message)).utf8ByteSize ≤
    24 * (code.utf8ByteSize + message.utf8ByteSize) + 64

variable (req) in
/-- What the service writes of an instance: an identifier of at most 128 bytes, texts that are no
    longer, and a payload for its output or for its error, not for both. -/
structure Store.Written (s : Store) : Prop where
  id : ∀ id ∈ s.index, id.utf8ByteSize ≤ 128
  texts : ∀ id ∈ s.index, ∀ name ∈ ["status", "errorCode", "errorMessage"],
    ∀ text ∈ (s.stateOf req id).get name, text.utf8ByteSize ≤ 128
  payload : ∀ id ∈ s.index,
    (s.stateOf req id).get "outputRef" = none ∨ (s.stateOf req id).get "errorRef" = none

theorem parsePayloadRef_le (hserde : serde.Compact) {raw : Option String} {payloadRef : String}
    {value : Json} (h : parsePayloadRef serde raw payloadRef n = .ok value) :
    (serde.toText value).utf8ByteSize ≤ 5 * n := by
  unfold parsePayloadRef parsePayloadJson at h
  split at h
  case h_1 => cases h
  case h_2 raw =>
    split at h
    case isTrue => cases h
    case isFalse hsize =>
      split at h
      case h_1 => cases h
      case h_2 hparse =>
        cases h
        exact (hserde.payload _ _ hparse).trans (by omega)

/-- One payload adds at most five times the limit of payloads. -/
theorem fillAll_le (hserde : serde.Compact) {inst inst' : InstanceResponse}
    (hreads : reads.length ≤ 1) (h : fillAll serde s reads inst = .ok inst') :
    inst'.id = inst.id ∧ inst'.status = inst.status ∧
      inst'.valueBytes serde ≤ inst.valueBytes serde + 5 * maxWorkflowResultBytes := by
  match reads, hreads with
  | [], _ =>
    cases h
    exact ⟨rfl, rfl, Nat.le_add_right _ _⟩
  | [read], _ =>
    rw [fillAll, foldlM_cons] at h
    unfold applyListPayloadReply at h
    split at h
    case h_1 => cases h
    case h_2 value hvalue =>
      have hle := parsePayloadRef_le hserde hvalue
      cases hfield : read.field <;> rw [hfield] at h <;> cases h <;> refine ⟨rfl, rfl, ?_⟩ <;>
        simp only [InstanceResponse.valueBytes, optionText] <;> omega

/-- What a page has of an instance before its payloads is short, and there is at most one. -/
theorem prepareListInstance_le (hserde : serde.Compact) (hs : s.Written req) (hid : id ∈ s.index)
    {inst : InstanceResponse}
    (h : prepareListInstance req id (s.stateOf req id) 0 = .ok (inst, reads)) :
    inst.id = id ∧ inst.status.utf8ByteSize ≤ 128 ∧ inst.valueBytes serde ≤ 6212 ∧
      reads.length ≤ 1 := by
  have htexts := hs.texts id hid
  have hpayload := hs.payload id hid
  generalize s.stateOf req id = state at h htexts hpayload
  have hinline : (optionText serde (inlineErrorFromState state)).utf8ByteSize ≤ 6208 := by
    unfold inlineErrorFromState
    cases hcode : state.get "errorCode" with
    | none => exact (by decide : 4 ≤ 6208)
    | some code =>
      have hcode := htexts _ (by simp) code hcode
      have hmessage : ((state.get "errorMessage").getD code).utf8ByteSize ≤ 128 := by
        cases hmessage : state.get "errorMessage" with
        | none => exact hcode
        | some message => exact htexts _ (by simp) message hmessage
      exact (hserde.error code _).trans (by omega)
  unfold prepareListInstance payloadRead at h
  split at h
  case h_1 => cases h
  case h_2 status hstatus =>
    cases hkey : canonicalInstancePayloadsKey state req id with
    | error e => rw [hkey] at h; cases h
    | ok key =>
      rw [hkey] at h
      cases h
      refine ⟨rfl, htexts _ (by simp) _ hstatus, ?_, ?_⟩
      · change 4 + (optionText serde (if _ then none else _)).utf8ByteSize ≤ 4 + 6208
        split
        · exact (by decide : 4 + 4 ≤ 4 + 6208)
        · exact Nat.add_le_add_left hinline 4
      · rcases hpayload with hnone | hnone <;> simp only [hnone] <;> split <;> simp

/-- The row of an instance that the service has written fits into the reserved response. -/
theorem row_fits (hserde : serde.Compact) (hs : s.Written req) (hid : id ∈ s.index) {raw : String}
    (h : s.row serde req id = .ok raw) :
    listResponseOverhead + raw.utf8ByteSize ≤ maxWorkflowInstancesResponseBytes := by
  have hoverhead : listResponseOverhead = 48 := by decide
  have hresponse : maxWorkflowInstancesResponseBytes = 8 * maxWorkflowResultBytes := rfl
  have hresult : maxWorkflowResultBytes = 1048576 := rfl
  have hidentifier := hs.id id hid
  unfold Store.row instanceRow at h
  cases hprepare : prepareListInstance req id (s.stateOf req id) 0 with
  | error e => rw [hprepare] at h; cases h
  | ok p =>
    obtain ⟨inst, reads⟩ := p
    rw [hprepare] at h
    obtain ⟨rfl, hstatus, hvalues, hreads⟩ := prepareListInstance_le hserde hs hid hprepare
    cases hfill : fillAll serde s reads inst with
    | error e => simp only [bind, Except.bind, hfill] at h; cases h
    | ok inst' =>
      simp only [bind, Except.bind, hfill] at h
      cases h
      obtain ⟨hid', hstatus', hvalues'⟩ := fillAll_le hserde hreads hfill
      have hquote := utf8ByteSize_quote_le inst.id
      have hquote' := utf8ByteSize_quote_le inst.status
      rw [utf8ByteSize_toRawValue, hid', hstatus']
      omega

variable (serde req) in
/-- Following the cursors of `list_instances` from the start comes to an end. Unless a call is
    refused or fails, the pages then hold the rows of all visible instances, each once and in the
    order of the index. Every call that answers keeps within its limit and the bytes of a
    response, and the cursor it returns lies after its own; and a call that was accepted fails
    because of its size only if a single instance does not fit into the reserved response. Of what
    the service writes, every instance fits. -/
theorem list_instances_complete (s : Store) :
    (∀ (limit : Option Json) (clock : ℕ → ℤ) (more : ℕ), ∃ r,
      follow serde req limit clock (s.index.length + 1 + more) none s = some r ∧
        (∀ pages, r = .ok pages → ∃ n, parseLimit (listOptions limit none) = .ok n ∧
          Listed serde req s n 0 pages) ∧
        ∀ e, r = .error e → parseLimit (listOptions limit none) = .error e ∨
          req.verify = .error e ∨ ∃ now, Failure serde req s now e) ∧
    (∀ (now : ℤ) (options : Json),
      CallOutcome serde req s now options (listInstances serde req now options s)) ∧
    (serde.Compact → s.Written req → ∀ id ∈ s.visible req, ∀ raw, s.row serde req id = .ok raw →
      listResponseOverhead + raw.utf8ByteSize ≤ maxWorkflowInstancesResponseBytes) := by
  refine ⟨fun limit clock more => ?_, callOutcome serde req s,
    fun hserde hs id hid raw => row_fits hserde hs (mem_filter.1 hid).1⟩
  cases hlimit : parseLimit (listOptions limit none) with
  | error e =>
    refine ⟨.error e, ?_, fun pages h => (by cases h), fun e' h => .inl ?_⟩
    · rw [Nat.add_right_comm, follow, listInstances, workflowInstancesOptions, hlimit]
      rfl
    · cases h
      rfl
  | ok n =>
    cases hverify : req.verify with
    | error e =>
      refine ⟨.error e, ?_, fun pages h => (by cases h), fun e' h => .inr (.inl ?_)⟩
      · rw [Nat.add_right_comm, follow, listInstances, workflowInstancesOptions, hlimit,
          parseCursor_listOptions_none, hverify]
        rfl
      · cases h
        rfl
    | ok u =>
      obtain ⟨r, hfollow, hok, herror⟩ := follow_outcome serde hlimit hverify clock
        (parseCursor_listOptions_none limit) (Nat.zero_le _)
        (show s.index.length - 0 < s.index.length + 1 + more by omega)
      exact ⟨r, hfollow, fun pages h => ⟨n, rfl, hok pages h⟩, fun e h => .inr (.inr (herror e h))⟩

/-- A JSON library for instances without values. -/
def noValues : SerdeJson := ⟨fun _ => .error "", fun _ => ""⟩

def orders : WorkflowRequest := ⟨"shop", "orders", .ok ()⟩

/-- The state of an instance that is queued. -/
def queuedState (id : String) : Fields :=
  [("status", "queued"), ("ns", "shop"), ("workflowKey", "orders"), ("instanceId", id),
    ("payloadsKey", payloadsKey (orders.scope id))]

/-- A store with the given index, in which some of the instances are queued. -/
def queuedStore (index queued : List String) (nodup : index.Nodup)
    (length_le : index.length ≤ i64Max) : Store where
  index := index
  nodup := nodup
  length_le := length_le
  states key := (queued.find? fun id => stateKey (orders.scope id) = key).elim [] queuedState
  payloads _ := []

/-- The second of three entries has no state. -/
def threeEntries : Store := queuedStore ["a", "b", "c"] ["a", "c"] (by decide) (by decide)

theorem threeEntries_written : threeEntries.Written orders :=
  ⟨by decide, by decide +kernel, by decide +kernel⟩

/-- With a limit of one, a client gets three pages, and the rows fit. -/
theorem list_instances_complete_three :
    follow noValues orders (some (.int 1)) (fun _ => 0) 4 none threeEntries =
      some (.ok
        [⟨["\x7b\"id\":\"a\",\"status\":\"queued\",\"output\":null,\"error\":null\x7d"], some "1"⟩,
        ⟨[], some "2"⟩,
        ⟨["\x7b\"id\":\"c\",\"status\":\"queued\",\"output\":null,\"error\":null\x7d"], none⟩]) ∧
    (∃ r, follow noValues orders (some (.int 1)) (fun _ => 0) 4 none threeEntries = some r ∧
      ∀ pages, r = .ok pages → ∃ n, parseLimit (listOptions (some (.int 1)) none) = .ok n ∧
        Listed noValues orders threeEntries n 0 pages) ∧
    ∀ id ∈ threeEntries.visible orders, ∀ raw, threeEntries.row noValues orders id = .ok raw →
      listResponseOverhead + raw.utf8ByteSize ≤ maxWorkflowInstancesResponseBytes := by
  obtain ⟨hfollow, -, hfits⟩ := list_instances_complete noValues orders threeEntries
  obtain ⟨r, hr, hok, -⟩ := hfollow (some (.int 1)) (fun _ => 0) 0
  have hcompact : noValues.Compact := ⟨nofun, fun _ _ => Nat.zero_le _⟩
  exact ⟨by decide +kernel, ⟨r, hr, hok⟩, hfits hcompact threeEntries_written⟩

end Wdl.Workflow.Listing
