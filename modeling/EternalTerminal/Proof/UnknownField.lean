import EternalTerminal.Library.LastWrite
import EternalTerminal.Proof.RoundTrip

/-!
# A record among the others

The decoders are folds over records, and each field of a message is a register that the records of one
number write. Some arms write what a failed conversion gives, and the number they look at is cut to 32
bits, so a record that is no field of the message may still clear or set one. What one more record does
to the result is settled arm by arm.
-/

namespace EternalTerminal

/-! ### Arms -/

/-- `msg.field = conv(f)`: a conversion that fails is written as well. -/
def assigned {β : Type} (number : UInt32) (conv : Field → β) (f : Field) : Option β :=
  if f.number = number then some (conv f) else none

/-- `if let Some(v) = conv(f)`: a conversion that fails leaves the field alone. -/
def guarded {β : Type} (number : UInt32) (conv : Field → Option β) (f : Field) : Option β :=
  if f.number = number then conv f else none

def fieldAsI32 (f : Field) : Option Int32 := (fieldAsVarint f).map asI32

/-- The embedded message of a field, if there is one. -/
def embedded {β : Type} (decode : Bytes → Decoded β) (f : Field) : Option β :=
  (fieldAsBytes f).bind fun b => (decode b).toOption

/-- The bytes of the field, if it has any, are a message. -/
def Embeds {β : Type} (decode : Bytes → Decoded β) (f : Field) : Prop :=
  ∀ b, fieldAsBytes f = some b → ∃ msg, decode b = .ok msg

section

variable (memory : Memory) (before : List Field) (f : Field) (after : List Field)

/-! ### What leaves a message as it is

`before`, `f` and `after` are the fields in the order of their records. -/

def ConnectRequest.Untouched : Prop :=
  Unseen (assigned 1 fieldAsString) none before f after
    ∧ Unseen (assigned 2 fieldAsI32) none before f after

def ConnectResponse.Untouched : Prop :=
  Unseen (guarded 1 fun f => (fieldAsI32 f).map ConnectStatus.fromI32) none before f after
    ∧ Unseen (assigned 2 fieldAsString) none before f after

def SequenceHeader.Untouched : Prop := Unseen (assigned 1 fieldAsI32) none before f after

/-- Every entry is kept, so the other records do not matter. -/
def CatchupBuffer.Untouched : Prop := guarded 1 fieldAsBytes f = none

def TerminalBuffer.Untouched : Prop := Unseen (assigned 1 fieldAsBytes) none before f after

def TerminalInfo.Untouched : Prop :=
  Unseen (assigned 1 fieldAsString) none before f after
    ∧ Unseen (assigned 2 fieldAsI32) none before f after
    ∧ Unseen (assigned 3 fieldAsI32) none before f after
    ∧ Unseen (assigned 4 fieldAsI32) none before f after
    ∧ Unseen (assigned 5 fieldAsI32) none before f after

def SocketEndpoint.Untouched : Prop :=
  Unseen (assigned 1 fieldAsString) none before f after
    ∧ Unseen (assigned 2 fieldAsI32) none before f after

namespace PortForwardSourceRequest

/-- An embedded message that does not decode fails the whole. -/
def Readable : Prop := f.number = 1 ∨ f.number = 2 → Embeds (SocketEndpoint.decode memory) f

def Untouched : Prop :=
  Unseen (guarded 1 fun f => (embedded (SocketEndpoint.decode memory) f).map some) none before f after
    ∧ Unseen (guarded 2 fun f => (embedded (SocketEndpoint.decode memory) f).map some) none
        before f after
    ∧ Unseen (assigned 3 fieldAsString) none before f after

end PortForwardSourceRequest

namespace InitialPayload

def decodeEntry (buf : Bytes) : Decoded (Option String × Option String) :=
  decodeFields memory (none, none) setEntry buf

def Readable : Prop :=
  (f.number = 2 → Embeds (PortForwardSourceRequest.decode memory) f)
    ∧ (f.number = 3 → Embeds (decodeEntry memory) f)

/-- What a map entry stores under the key. -/
def valueFor (key : String) : Option String × Option String → Option String
  | (some k, some v) => if key = k then some v else none
  | _ => none

def Untouched : Prop :=
  Unseen (assigned 1 fun f => (fieldAsVarint f).map (· != 0)) none before f after
    ∧ guarded 2 (embedded (PortForwardSourceRequest.decode memory)) f = none
    ∧ ∀ key, Unseen (guarded 3 fun f =>
        ((embedded (decodeEntry memory) f).bind (valueFor key)).map some) none before f after

end InitialPayload

def InitialResponse.Untouched : Prop := Unseen (assigned 1 fieldAsString) none before f after

end

/-! ### One more record in a fold -/

theorem decodeFieldsM_messageBytes {α : Type} {memory : Memory} {init out : α}
    {set : α → Field → Decoded α} {records : List WireRecord} :
    decodeFieldsM memory init set (messageBytes records) = .ok out ↔
      (∀ record ∈ records, record.Granted memory)
        ∧ (records.map WireRecord.field).foldlM set init = .ok out := by
  rw [decodeFieldsM, Decoded.bind_eq_ok]
  constructor
  · intro h
    obtain ⟨fields, hparse, hfold⟩ := h
    obtain ⟨hgranted, rfl⟩ := parseMessage_messageBytes_eq_ok.mp hparse
    exact ⟨hgranted, hfold⟩
  · intro h
    exact ⟨_, parseMessage_messageBytes h.1, h.2⟩

theorem decodeFields_eq_decodeFieldsM {α : Type} (memory : Memory) (init : α) (set : α → Field → α)
    (buf : Bytes) :
    decodeFields memory init set buf =
      decodeFieldsM memory init (fun msg f => pure (set msg f)) buf := by
  simp only [decodeFields, decodeFieldsM, List.foldlM_pure]

section

variable {α : Type} {memory : Memory} {init msg : α} {set : α → Field → Decoded α}
  {before after : List WireRecord} {record : WireRecord}

/-- `Untouched` says when the fold makes the same of the records with one more between them. -/
def DecidesSame (set : α → Field → Decoded α) (init : α) (before : List WireRecord)
    (record : WireRecord) (after : List WireRecord) (Same : α → α → Prop) (Untouched : Prop) : Prop :=
  ∀ ⦃msg out⦄, (before.map WireRecord.field ++ after.map WireRecord.field).foldlM set init = .ok msg →
    (before.map WireRecord.field ++ record.field :: after.map WireRecord.field).foldlM set init =
      .ok out → (Same out msg ↔ Untouched)

/-- The record is ignored if it is read, its handler succeeds and its trace is covered. -/
theorem decodeFieldsM_insert_iff {Same : α → α → Prop} {Accepts : Field → Prop} {Untouched : Prop}
    (hsame : DecidesSame set init before record after Same Untouched)
    (haccepts : ∀ msg f, (∃ out, set msg f = .ok out) ↔ Accepts f)
    (hplain : decodeFieldsM memory init set (messageBytes (before ++ after)) = .ok msg) :
    (∃ out, decodeFieldsM memory init set (messageBytes (before ++ record :: after)) = .ok out
      ∧ Same out msg) ↔ record.Granted memory ∧ Accepts record.field ∧ Untouched := by
  obtain ⟨hgranted, hfold⟩ := decodeFieldsM_messageBytes.mp hplain
  rw [List.map_append] at hfold
  have hothers := (foldlM_ok_iff haccepts).mp ⟨msg, hfold⟩
  have hsplit : (∀ other ∈ before ++ record :: after, other.Granted memory) ↔
      record.Granted memory := by
    simp only [List.mem_append, List.mem_cons, or_imp, forall_and, forall_eq] at hgranted ⊢
    exact ⟨fun h => h.2.1, fun h => ⟨hgranted.1, h, hgranted.2⟩⟩
  constructor
  · intro h
    obtain ⟨out, hdecode, hout⟩ := h
    obtain ⟨hall, hinsert⟩ := decodeFieldsM_messageBytes.mp hdecode
    rw [List.map_append, List.map_cons] at hinsert
    have haccepted := (foldlM_ok_iff haccepts).mp ⟨out, hinsert⟩ record.field (by simp)
    exact ⟨hsplit.mp hall, haccepted, (hsame hfold hinsert).mp hout⟩
  · intro h
    obtain ⟨hrecord, haccepted, huntouched⟩ := h
    have hall : ∀ f ∈ before.map WireRecord.field ++ record.field :: after.map WireRecord.field,
        Accepts f := by
      simp only [List.mem_append, List.mem_cons, or_imp, forall_and, forall_eq] at hothers ⊢
      exact ⟨hothers.1, haccepted, hothers.2⟩
    obtain ⟨out, hinsert⟩ := (foldlM_ok_iff haccepts).mpr hall
    refine ⟨out, decodeFieldsM_messageBytes.mpr ⟨hsplit.mpr hrecord, ?_⟩,
      (hsame hfold hinsert).mpr huntouched⟩
    rw [List.map_append, List.map_cons]
    exact hinsert

theorem decodeFields_insert_iff {set : α → Field → α} {Untouched : Prop}
    (hsame : DecidesSame (fun msg f => pure (set msg f)) init before record after Eq Untouched)
    (hplain : decodeFields memory init set (messageBytes (before ++ after)) = .ok msg) :
    decodeFields memory init set (messageBytes (before ++ record :: after)) = .ok msg ↔
      record.Granted memory ∧ Untouched := by
  rw [decodeFields_eq_decodeFieldsM] at hplain ⊢
  have haccepts : ∀ (msg : α) (f : Field),
      (∃ out, (pure (set msg f) : Decoded α) = .ok out) ↔ True :=
    fun msg f => iff_of_true ⟨_, rfl⟩ trivial
  have hinsert := decodeFieldsM_insert_iff hsame haccepts hplain
  rw [exists_eq_right, true_and] at hinsert
  exact hinsert

theorem isRegister_pure {β : Type} {set : α → Field → α} {get : α → β} {writes : Field → Option β}
    (h : ∀ msg f, get (set msg f) = (writes f).getD (get msg)) :
    IsRegister (fun msg f => (pure (set msg f) : Decoded α)) get writes := by
  intro msg f out hset
  rw [← Except.ok.inj hset]
  exact h msg f

end

/-! ### Message by message -/

attribute [ext] ConnectRequest ConnectResponse SequenceHeader CatchupBuffer TerminalBuffer TerminalInfo
  SocketEndpoint PortForwardSourceRequest InitialResponse

/-- These records decode to the message. -/
def Decodes {α : Type} [ProtoMessage α] (memory : Memory) (records : List WireRecord) (msg : α) :
    Prop := ProtoMessage.decode memory (messageBytes records) = .ok msg

instance {α : Type} [ProtoMessage α] [DecidableEq α] (memory : Memory) (records : List WireRecord)
    (msg : α) : Decidable (Decodes memory records msg) :=
  inferInstanceAs (Decidable (ProtoMessage.decode memory (messageBytes records) = .ok msg))

section

variable {memory : Memory} {before after : List WireRecord} {record : WireRecord}

theorem ConnectRequest.ignored_iff {msg : ConnectRequest} (h : Decodes memory (before ++ after) msg) :
    Decodes memory (before ++ record :: after) msg ↔ record.Granted memory
      ∧ Untouched (before.map WireRecord.field) record.field (after.map WireRecord.field) := by
  have hclientId : ∀ msg f, (set msg f).clientId = (assigned 1 fieldAsString f).getD msg.clientId := by
    intro msg f
    simp only [set, assigned]
    split <;> simp_all
  have hversion : ∀ msg f, (set msg f).version = (assigned 2 fieldAsI32 f).getD msg.version := by
    intro msg f
    simp only [set, assigned]
    split <;> simp_all [fieldAsI32]
  refine decodeFields_insert_iff ?_ h
  intro msg out hplain hinsert
  rw [ConnectRequest.ext_iff]
  exact and_congr ((isRegister_pure hclientId).insert_iff hplain hinsert)
    ((isRegister_pure hversion).insert_iff hplain hinsert)

theorem ConnectResponse.ignored_iff {msg : ConnectResponse}
    (h : Decodes memory (before ++ after) msg) :
    Decodes memory (before ++ record :: after) msg ↔ record.Granted memory
      ∧ Untouched (before.map WireRecord.field) record.field (after.map WireRecord.field) := by
  have hstatus : ∀ msg f, (set msg f).status =
      (guarded 1 (fun f => (fieldAsI32 f).map ConnectStatus.fromI32) f).getD msg.status := by
    intro msg f
    simp only [set, guarded, fieldAsI32]
    split
    · cases fieldAsVarint f <;> simp_all
    · simp_all
    · simp_all
  have herror : ∀ msg f, (set msg f).error = (assigned 2 fieldAsString f).getD msg.error := by
    intro msg f
    simp only [set, assigned]
    split
    · cases fieldAsVarint f <;> simp_all
    · simp_all
    · simp_all
  refine decodeFields_insert_iff ?_ h
  intro msg out hplain hinsert
  rw [ConnectResponse.ext_iff]
  exact and_congr ((isRegister_pure hstatus).insert_iff hplain hinsert)
    ((isRegister_pure herror).insert_iff hplain hinsert)

theorem SequenceHeader.ignored_iff {msg : SequenceHeader} (h : Decodes memory (before ++ after) msg) :
    Decodes memory (before ++ record :: after) msg ↔ record.Granted memory
      ∧ Untouched (before.map WireRecord.field) record.field (after.map WireRecord.field) := by
  have hsequenceNumber : ∀ msg f,
      (set msg f).sequenceNumber = (assigned 1 fieldAsI32 f).getD msg.sequenceNumber := by
    intro msg f
    simp only [set, assigned]
    split <;> simp_all [fieldAsI32]
  refine decodeFields_insert_iff ?_ h
  intro msg out hplain hinsert
  rw [SequenceHeader.ext_iff]
  exact (isRegister_pure hsequenceNumber).insert_iff hplain hinsert

theorem TerminalBuffer.ignored_iff {msg : TerminalBuffer} (h : Decodes memory (before ++ after) msg) :
    Decodes memory (before ++ record :: after) msg ↔ record.Granted memory
      ∧ Untouched (before.map WireRecord.field) record.field (after.map WireRecord.field) := by
  have hbuffer : ∀ msg f, (set msg f).buffer = (assigned 1 fieldAsBytes f).getD msg.buffer := by
    intro msg f
    simp only [set, assigned]
    split <;> simp_all
  refine decodeFields_insert_iff ?_ h
  intro msg out hplain hinsert
  rw [TerminalBuffer.ext_iff]
  exact (isRegister_pure hbuffer).insert_iff hplain hinsert

theorem TerminalInfo.ignored_iff {msg : TerminalInfo} (h : Decodes memory (before ++ after) msg) :
    Decodes memory (before ++ record :: after) msg ↔ record.Granted memory
      ∧ Untouched (before.map WireRecord.field) record.field (after.map WireRecord.field) := by
  have hid : ∀ msg f, (set msg f).id = (assigned 1 fieldAsString f).getD msg.id := by
    intro msg f
    simp only [set, assigned]
    split <;> simp_all
  have hrow : ∀ msg f, (set msg f).row = (assigned 2 fieldAsI32 f).getD msg.row := by
    intro msg f
    simp only [set, assigned]
    split <;> simp_all [fieldAsI32]
  have hcolumn : ∀ msg f, (set msg f).column = (assigned 3 fieldAsI32 f).getD msg.column := by
    intro msg f
    simp only [set, assigned]
    split <;> simp_all [fieldAsI32]
  have hwidth : ∀ msg f, (set msg f).width = (assigned 4 fieldAsI32 f).getD msg.width := by
    intro msg f
    simp only [set, assigned]
    split <;> simp_all [fieldAsI32]
  have hheight : ∀ msg f, (set msg f).height = (assigned 5 fieldAsI32 f).getD msg.height := by
    intro msg f
    simp only [set, assigned]
    split <;> simp_all [fieldAsI32]
  refine decodeFields_insert_iff ?_ h
  intro msg out hplain hinsert
  rw [TerminalInfo.ext_iff]
  exact and_congr ((isRegister_pure hid).insert_iff hplain hinsert)
    (and_congr ((isRegister_pure hrow).insert_iff hplain hinsert)
      (and_congr ((isRegister_pure hcolumn).insert_iff hplain hinsert)
        (and_congr ((isRegister_pure hwidth).insert_iff hplain hinsert)
          ((isRegister_pure hheight).insert_iff hplain hinsert))))

theorem SocketEndpoint.ignored_iff {msg : SocketEndpoint} (h : Decodes memory (before ++ after) msg) :
    Decodes memory (before ++ record :: after) msg ↔ record.Granted memory
      ∧ Untouched (before.map WireRecord.field) record.field (after.map WireRecord.field) := by
  have hname : ∀ msg f, (set msg f).name = (assigned 1 fieldAsString f).getD msg.name := by
    intro msg f
    simp only [set, assigned]
    split <;> simp_all
  have hport : ∀ msg f, (set msg f).port = (assigned 2 fieldAsI32 f).getD msg.port := by
    intro msg f
    simp only [set, assigned]
    split <;> simp_all [fieldAsI32]
  refine decodeFields_insert_iff ?_ h
  intro msg out hplain hinsert
  rw [SocketEndpoint.ext_iff]
  exact and_congr ((isRegister_pure hname).insert_iff hplain hinsert)
    ((isRegister_pure hport).insert_iff hplain hinsert)

theorem InitialResponse.ignored_iff {msg : InitialResponse} (h : Decodes memory (before ++ after) msg) :
    Decodes memory (before ++ record :: after) msg ↔ record.Granted memory
      ∧ Untouched (before.map WireRecord.field) record.field (after.map WireRecord.field) := by
  have herror : ∀ msg f, (set msg f).error = (assigned 1 fieldAsString f).getD msg.error := by
    intro msg f
    simp only [set, assigned]
    split <;> simp_all
  refine decodeFields_insert_iff ?_ h
  intro msg out hplain hinsert
  rw [InitialResponse.ext_iff]
  exact (isRegister_pure herror).insert_iff hplain hinsert

theorem CatchupBuffer.ignored_iff {msg : CatchupBuffer} (h : Decodes memory (before ++ after) msg) :
    Decodes memory (before ++ record :: after) msg ↔
      record.Granted memory ∧ Untouched record.field := by
  have hbuffer : IsQueue (fun msg f => (pure (set msg f) : Decoded CatchupBuffer)) buffer
      fun f => (guarded 1 fieldAsBytes f).toList := by
    intro msg f out hset
    rw [← Except.ok.inj hset]
    simp only [set, guarded]
    split_ifs
    · cases fieldAsBytes f <;> simp
    · simp
  refine decodeFields_insert_iff ?_ h
  intro msg out hplain hinsert
  rw [CatchupBuffer.ext_iff, hbuffer.insert_iff hplain hinsert, Option.toList_eq_nil_iff]
  rfl

namespace PortForwardSourceRequest

theorem set_eq_ok {msg out : PortForwardSourceRequest} {f : Field} (h : set memory msg f = .ok out) :
    out.source =
        (guarded 1 (fun f => (embedded (SocketEndpoint.decode memory) f).map some) f).getD msg.source
      ∧ out.destination = (guarded 2 (fun f => (embedded (SocketEndpoint.decode memory) f).map some)
        f).getD msg.destination
      ∧ out.environmentVariable =
        (assigned 3 fieldAsString f).getD msg.environmentVariable := by
  simp only [set] at h
  simp only [guarded, assigned, embedded]
  split at h
  · next hnumber =>
      split at h
      · next b hbytes =>
          obtain ⟨source, hdecode, hout⟩ := Decoded.bind_eq_ok.mp h
          obtain rfl := Except.ok.inj hout
          simp [hnumber, hbytes, hdecode, Except.toOption]
      · next hbytes =>
          obtain rfl := Except.ok.inj h
          simp [hnumber, hbytes]
  · next hnumber =>
      split at h
      · next b hbytes =>
          obtain ⟨destination, hdecode, hout⟩ := Decoded.bind_eq_ok.mp h
          obtain rfl := Except.ok.inj hout
          simp [hnumber, hbytes, hdecode, Except.toOption]
      · next hbytes =>
          obtain rfl := Except.ok.inj h
          simp [hnumber, hbytes]
  · next hnumber =>
      obtain rfl := Except.ok.inj h
      simp [hnumber]
  · obtain rfl := Except.ok.inj h
    simp_all

theorem set_ok_iff (msg : PortForwardSourceRequest) (f : Field) :
    (∃ out, set memory msg f = .ok out) ↔ Readable memory f := by
  simp only [set, Readable, Embeds]
  split
  · next hnumber =>
      split
      · next b hbytes => simp [hnumber, hbytes, Decoded.bind_eq_ok, pure, Except.pure]
      · next hbytes => simp [hbytes, pure, Except.pure]
  · next hnumber =>
      split
      · next b hbytes => simp [hnumber, hbytes, Decoded.bind_eq_ok, pure, Except.pure]
      · next hbytes => simp [hbytes, pure, Except.pure]
  · next hnumber => simp [hnumber, pure, Except.pure]
  · simp_all [pure, Except.pure]

theorem ignored_iff {msg : PortForwardSourceRequest} (h : Decodes memory (before ++ after) msg) :
    Decodes memory (before ++ record :: after) msg ↔ record.Granted memory
      ∧ Readable memory record.field
      ∧ Untouched memory (before.map WireRecord.field) record.field (after.map WireRecord.field) := by
  have hsame : DecidesSame (set memory) {} before record after Eq
      (Untouched memory (before.map WireRecord.field) record.field (after.map WireRecord.field)) := by
    intro msg out hplain hinsert
    rw [PortForwardSourceRequest.ext_iff]
    exact and_congr (IsRegister.insert_iff hplain hinsert fun _ _ _ hset => (set_eq_ok hset).1)
      (and_congr (IsRegister.insert_iff hplain hinsert fun _ _ _ hset => (set_eq_ok hset).2.1)
        (IsRegister.insert_iff hplain hinsert fun _ _ _ hset => (set_eq_ok hset).2.2))
  have hinsert := decodeFieldsM_insert_iff hsame set_ok_iff h
  rw [exists_eq_right] at hinsert
  exact hinsert

end PortForwardSourceRequest

namespace InitialPayload

theorem set_eq_ok {msg out : InitialPayload} {f : Field} (h : set memory msg f = .ok out) :
    out.jumphost =
        (assigned 1 (fun f => (fieldAsVarint f).map (· != 0)) f).getD msg.jumphost
      ∧ out.reverseTunnels = msg.reverseTunnels
        ++ (guarded 2 (embedded (PortForwardSourceRequest.decode memory)) f).toList
      ∧ ∀ key, out.environmentVariables.lookup key =
        (guarded 3 (fun f => ((embedded (decodeEntry memory) f).bind (valueFor key)).map some)
          f).getD (msg.environmentVariables.lookup key) := by
  simp only [set] at h
  simp only [guarded, assigned, embedded]
  split at h
  · next hnumber =>
      obtain rfl := Except.ok.inj h
      simp [hnumber]
  · next hnumber =>
      split at h
      · next b hbytes =>
          obtain ⟨tunnel, hdecode, hout⟩ := Decoded.bind_eq_ok.mp h
          obtain rfl := Except.ok.inj hout
          simp [hnumber, hbytes, hdecode, Except.toOption]
      · next hbytes =>
          obtain rfl := Except.ok.inj h
          simp [hnumber, hbytes]
  · next hnumber =>
      split at h
      · next b hbytes =>
          obtain ⟨entry, hdecode, hout⟩ := Decoded.bind_eq_ok.mp h
          obtain rfl := Except.ok.inj hout
          have hentry : decodeEntry memory b = .ok entry := hdecode
          simp only [hnumber, hbytes, hentry, Option.bind_some, Except.toOption]
          refine ⟨?_, ?_, fun key => ?_⟩
          · obtain ⟨_ | k, _ | v⟩ := entry <;> simp [insertEntry]
          · obtain ⟨_ | k, _ | v⟩ := entry <;> simp [insertEntry]
          · obtain ⟨_ | k, _ | v⟩ := entry
            · simp [insertEntry, valueFor]
            · simp [insertEntry, valueFor]
            · simp [insertEntry, valueFor]
            · by_cases hkey : key = k
              · subst hkey
                simp [insertEntry, valueFor]
              · simp [insertEntry, valueFor, hkey]
      · next hbytes =>
          obtain rfl := Except.ok.inj h
          simp [hnumber, hbytes]
  · obtain rfl := Except.ok.inj h
    simp_all

theorem set_ok_iff (msg : InitialPayload) (f : Field) :
    (∃ out, set memory msg f = .ok out) ↔ Readable memory f := by
  simp only [set, Readable, Embeds]
  split
  · next hnumber => simp [hnumber, pure, Except.pure]
  · next hnumber =>
      split
      · next b hbytes => simp [hnumber, hbytes, Decoded.bind_eq_ok, pure, Except.pure]
      · next hbytes => simp [hbytes, pure, Except.pure]
  · next hnumber =>
      split
      · next b hbytes => simp [hnumber, hbytes, decodeEntry, Decoded.bind_eq_ok, pure, Except.pure]
      · next hbytes => simp [hbytes, pure, Except.pure]
  · simp_all [pure, Except.pure]

/-- The same payload, with the map in whatever order. -/
def Same (out msg : InitialPayload) : Prop :=
  out.jumphost = msg.jumphost ∧ out.reverseTunnels = msg.reverseTunnels
    ∧ out.environmentVariables.Same msg.environmentVariables

theorem ignored_iff {msg : InitialPayload} (h : Decodes memory (before ++ after) msg) :
    (∃ out : InitialPayload, Decodes memory (before ++ record :: after) out ∧ out.Same msg) ↔
      record.Granted memory ∧ Readable memory record.field
      ∧ Untouched memory (before.map WireRecord.field) record.field (after.map WireRecord.field) := by
  have hsame : DecidesSame (set memory) {} before record after Same
      (Untouched memory (before.map WireRecord.field) record.field (after.map WireRecord.field)) := by
    intro msg out hplain hinsert
    have htunnels : IsQueue (set memory) reverseTunnels _ := fun _ _ _ hset => (set_eq_ok hset).2.1
    have hqueue := htunnels.insert_iff hplain hinsert
    rw [Option.toList_eq_nil_iff] at hqueue
    exact and_congr (IsRegister.insert_iff hplain hinsert fun _ _ _ hset => (set_eq_ok hset).1)
      (and_congr hqueue (forall_congr' fun key =>
        IsRegister.insert_iff hplain hinsert fun _ _ _ hset => (set_eq_ok hset).2.2 key))
  exact decodeFieldsM_insert_iff hsame set_ok_iff h

end InitialPayload

end

/-! ### All messages -/

/-- One more record between the others leaves what is decoded as it is exactly if the memory gives its
length and it is harmless. -/
def IgnoredIff (α : Type) [ProtoMessage α] (memory : Memory) (before : List WireRecord)
    (record : WireRecord) (after : List WireRecord)
    (Harmless : List Field → Field → List Field → Prop) : Prop :=
  ∀ msg : α, Decodes memory (before ++ after) msg →
    (Decodes memory (before ++ record :: after) msg ↔ record.Granted memory
      ∧ Harmless (before.map WireRecord.field) record.field (after.map WireRecord.field))

/-- **What one more record does.** Between the records of a message of any of the ten types it is
ignored exactly if it leaves no trace: no field of the message takes its number, cut to 32 bits, or a
later record of the field covers it, or what the field's arm makes of it is there already. -/
theorem record_ignored_iff (memory : Memory) (before after : List WireRecord) (record : WireRecord) :
    IgnoredIff ConnectRequest memory before record after ConnectRequest.Untouched
      ∧ IgnoredIff ConnectResponse memory before record after ConnectResponse.Untouched
      ∧ IgnoredIff SequenceHeader memory before record after SequenceHeader.Untouched
      ∧ IgnoredIff CatchupBuffer memory before record after
          (fun _ f _ => CatchupBuffer.Untouched f)
      ∧ IgnoredIff TerminalBuffer memory before record after TerminalBuffer.Untouched
      ∧ IgnoredIff TerminalInfo memory before record after TerminalInfo.Untouched
      ∧ IgnoredIff SocketEndpoint memory before record after SocketEndpoint.Untouched
      ∧ IgnoredIff PortForwardSourceRequest memory before record after
          (fun earlier f later => PortForwardSourceRequest.Readable memory f
            ∧ PortForwardSourceRequest.Untouched memory earlier f later)
      ∧ (∀ msg : InitialPayload, Decodes memory (before ++ after) msg →
          ((∃ out : InitialPayload, Decodes memory (before ++ record :: after) out ∧ out.Same msg) ↔
            record.Granted memory ∧ InitialPayload.Readable memory record.field
              ∧ InitialPayload.Untouched memory (before.map WireRecord.field) record.field
                  (after.map WireRecord.field)))
      ∧ IgnoredIff InitialResponse memory before record after InitialResponse.Untouched :=
  ⟨fun _ h => ConnectRequest.ignored_iff h, fun _ h => ConnectResponse.ignored_iff h,
    fun _ h => SequenceHeader.ignored_iff h, fun _ h => CatchupBuffer.ignored_iff h,
    fun _ h => TerminalBuffer.ignored_iff h, fun _ h => TerminalInfo.ignored_iff h,
    fun _ h => SocketEndpoint.ignored_iff h, fun _ h => PortForwardSourceRequest.ignored_iff h,
    fun _ h => InitialPayload.ignored_iff h, fun _ h => InitialResponse.ignored_iff h⟩

/-- The `client_id` "a". -/
def clientIdRecord : WireRecord := ⟨.ofUInt64 10, .delimited (.ofUInt64 1) [0x61] (by decide), rfl⟩

/-- A varint under the number of `client_id`. -/
def foreignRecord : WireRecord := ⟨.ofUInt64 8, .varint (.ofUInt64 0), rfl⟩

theorem decodes_clientIdRecord :
    Decodes (fun _ => true) [clientIdRecord] ({ clientId := some "a" } : ConnectRequest) := by
  decide +kernel

/-- A varint where the encoder writes a string clears the string. -/
theorem not_unknown_field_ignored :
    ¬ ∀ (before after : List WireRecord) (record : WireRecord) (msg : ConnectRequest),
      (record.number, record.value.wireType) ∉ [(1, 2), (2, 0)] →
      Decodes (fun _ => true) (before ++ after) msg →
      Decodes (fun _ => true) (before ++ record :: after) msg := by
  intro hignored
  have hcleared : ¬ Decodes (fun _ => true) [clientIdRecord, foreignRecord]
      ({ clientId := some "a" } : ConnectRequest) := by
    decide +kernel
  exact hcleared
    (hignored [clientIdRecord] [] foreignRecord _ (by decide) decodes_clientIdRecord)

/-- The same record before the `client_id` is covered by it. -/
theorem record_ignored_iff_covered :
    Decodes (fun _ => true) [foreignRecord, clientIdRecord]
      ({ clientId := some "a" } : ConnectRequest) := by
  refine ((record_ignored_iff (fun _ => true) [] [clientIdRecord] foreignRecord).1 _
    decodes_clientIdRecord).mpr ⟨trivial, fun v hv => ?_, fun v hv => ?_⟩
  · exact .inl ⟨_, List.mem_singleton_self _, rfl⟩
  · have hother : assigned 2 fieldAsI32 foreignRecord.field = none := by decide
    exact absurd (hother.symm.trans hv).symm (Option.some_ne_none _)

end EternalTerminal
