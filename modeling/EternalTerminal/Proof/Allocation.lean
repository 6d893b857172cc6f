import EternalTerminal.Proof.Codec

/-!
# The memory a decoder asks for

A decoder allocates every length that a record declares before it looks whether the input has as many
bytes. `Asks` says which lengths those are: the decoder crashes if one of them is refused, and with
memory for all of them it returns a message or an error. The lists are read off the bytes.
-/

namespace EternalTerminal

def unlimited : Memory := fun _ => true

/-- `run` asks the memory for exactly these lengths. -/
structure Asks {α : Type} (run : Memory → Decoded α) (lengths : List Nat) : Prop where
  total : run unlimited ≠ .error .crash
  granted : ∀ memory : Memory, (∀ len ∈ lengths, memory len = true) → run memory = run unlimited
  refused : ∀ (memory : Memory) (len : Nat), len ∈ lengths → memory len = false →
    run memory = .error .crash

/-- What comes after a step that succeeds. -/
def afterOk {α : Type} (result : Decoded α) (lengths : α → List Nat) : List Nat :=
  match result with
  | .ok a => lengths a
  | .error _ => []

namespace Asks

variable {α β : Type}

theorem not_crash_iff {run : Memory → Decoded α} {lengths : List Nat} (h : Asks run lengths)
    (memory : Memory) :
    run memory ≠ .error .crash ↔ ∀ len ∈ lengths, memory len = true := by
  constructor
  · intro hrun len hmem
    by_contra hrefused
    exact hrun (h.refused memory len hmem (by simpa using hrefused))
  · intro hgranted
    rw [h.granted memory hgranted]
    exact h.total

theorem nothing {result : Decoded α} (h : result ≠ .error .crash) : Asks (fun _ => result) [] :=
  ⟨h, fun _ _ => rfl, fun _ _ hmem _ => absurd hmem (by simp)⟩

theorem zeroed (len : Nat) : Asks (fun memory => zeroed memory len) [len] := by
  refine ⟨by simp [EternalTerminal.zeroed, unlimited], ?_, ?_⟩
  · intro memory hgranted
    simp [EternalTerminal.zeroed, unlimited, hgranted len (by simp)]
  · intro memory asked hmem hrefused
    obtain rfl := List.mem_singleton.mp hmem
    simp [EternalTerminal.zeroed, hrefused]

/-- One step after another asks for what the first asks for, and then, if that succeeded, for what
the second does. -/
theorem bind {first : Memory → Decoded α} {next : Memory → α → Decoded β} {lengths : List Nat}
    {more : α → List Nat} (hfirst : Asks first lengths)
    (hnext : ∀ a, Asks (fun memory => next memory a) (more a)) :
    Asks (fun memory => first memory >>= next memory)
      (lengths ++ afterOk (first unlimited) more) := by
  refine ⟨?_, ?_, ?_⟩
  · intro hcrash
    rcases Decoded.bind_eq_error.mp hcrash with hhead | ⟨a, -, htail⟩
    · exact hfirst.total hhead
    · exact (hnext a).total htail
  · intro memory hgranted
    have hhead := hfirst.granted memory fun len hmem => hgranted len (List.mem_append_left _ hmem)
    change first memory >>= next memory = first unlimited >>= next unlimited
    rw [hhead]
    rcases hresult : first unlimited with e | a
    · rfl
    · refine (hnext a).granted memory fun len hmem => hgranted len (List.mem_append_right _ ?_)
      rw [hresult]
      exact hmem
  · intro memory len hmem hrefused
    apply Decoded.bind_eq_error.mpr
    by_cases hgranted : ∀ len ∈ lengths, memory len = true
    · -- the first step is the one of unlimited memory, so the refused length is one of the second
      have hhead := hfirst.granted memory hgranted
      rcases List.mem_append.mp hmem with hbefore | hafter
      · rw [hgranted len hbefore] at hrefused
        exact absurd hrefused (by simp)
      · rcases hresult : first unlimited with e | a
        · rw [hresult] at hafter
          exact absurd hafter (by simp [afterOk])
        · rw [hresult] at hafter
          exact .inr ⟨a, by rw [hhead, hresult], (hnext a).refused memory len hafter hrefused⟩
    · simp only [not_forall, Bool.not_eq_true] at hgranted
      obtain ⟨asked, hasked, hno⟩ := hgranted
      exact .inl (hfirst.refused memory asked hasked hno)

theorem bind_nothing {first : Memory → Decoded α} {next : α → Decoded β} {lengths : List Nat}
    (hfirst : Asks first lengths) (hnext : ∀ a, next a ≠ .error .crash) :
    Asks (fun memory => first memory >>= next) lengths := by
  have h : Asks (fun memory => first memory >>= next) _ :=
    hfirst.bind fun a => nothing (hnext a)
  have hnone : afterOk (first unlimited) (fun _ : α => ([] : List Nat)) = [] := by
    unfold afterOk
    split <;> rfl
  rwa [hnone, List.append_nil] at h

end Asks

/-! ### Records -/

theorem pure_ne_crash {α : Type} (a : α) : (pure a : Decoded α) ≠ .error .crash := by
  simp [pure, Except.pure]

theorem readVarintField_ne_crash (buf : Bytes) : readVarintField buf ≠ .error .crash := by
  rw [readVarintField]
  cases readVarint buf <;> simp [Except.mapError]

theorem readExact_ne_crash (n : Nat) (buf : Bytes) : readExact n buf ≠ .error .crash := by
  rw [readExact]
  split_ifs <;> simp

/-- The length declared in front of a value, for the one wire type that has it. -/
def valueLengths (wireType : UInt32) (buf : Bytes) : List Nat :=
  if wireType = 2 then afterOk (readVarintField buf) fun (len, _) => [len.toNat] else []

/-- The length the record at the front declares. -/
def recordLengths (buf : Bytes) : List Nat :=
  afterOk (readVarintField buf) fun (tag, buf) => valueLengths (tag &&& 0x7).toUInt32 buf

/-- The lengths declared in a message by the records that the loop gets to: those behind whole
records. -/
def declaredLengths : Nat → Bytes → List Nat
  | _, [] => []
  | 0, _ :: _ => []
  | turns + 1, b :: buf =>
    recordLengths (b :: buf)
      ++ afterOk (readRecord unlimited (b :: buf)) fun (_, rest) => declaredLengths turns rest

def messageLengths (buf : Bytes) : List Nat := declaredLengths buf.length buf

theorem asks_readValue (wireType : UInt32) (buf : Bytes) :
    Asks (fun memory => readValue memory wireType buf) (valueLengths wireType buf) := by
  by_cases hbytes : wireType = 2
  · subst hbytes
    have hread : ∀ len : UInt64 × Bytes, Asks (fun memory => do
        zeroed memory len.1.toNat
        readExact len.1.toNat len.2) [len.1.toNat] :=
      fun len => (Asks.zeroed len.1.toNat).bind_nothing fun _ => readExact_ne_crash _ _
    exact (Asks.nothing (readVarintField_ne_crash buf)).bind hread
  · have hnone : valueLengths wireType buf = [] := if_neg hbytes
    rw [hnone]
    unfold readValue
    split
    · refine Asks.nothing fun hcrash => ?_
      rcases Decoded.bind_eq_error.mp hcrash with hvarint | ⟨_, -, hpure⟩
      · exact readVarintField_ne_crash buf hvarint
      · exact pure_ne_crash _ hpure
    · exact Asks.nothing (readExact_ne_crash 8 buf)
    · exact absurd rfl hbytes
    · exact Asks.nothing (readExact_ne_crash 4 buf)
    · exact Asks.nothing nofun

theorem asks_readRecord (buf : Bytes) :
    Asks (fun memory => readRecord memory buf) (recordLengths buf) := by
  refine (Asks.nothing (readVarintField_ne_crash buf)).bind fun tag => ?_
  exact (asks_readValue _ _).bind_nothing fun _ => pure_ne_crash _

theorem asks_parseRecords (turns : Nat) (buf : Bytes) :
    Asks (fun memory => parseRecords memory turns buf) (declaredLengths turns buf) := by
  induction turns generalizing buf with
  | zero =>
      cases buf with
      | nil => exact Asks.nothing (pure_ne_crash _)
      | cons b buf => exact Asks.nothing nofun
  | succ turns ih =>
      cases buf with
      | nil => exact Asks.nothing (pure_ne_crash _)
      | cons b buf =>
          refine (asks_readRecord (b :: buf)).bind fun record => ?_
          exact (ih record.2).bind_nothing fun _ => pure_ne_crash _

theorem asks_parseMessage (buf : Bytes) :
    Asks (fun memory => parseMessage memory buf) (messageLengths buf) := asks_parseRecords _ buf

/-! ### Messages -/

theorem asks_decodeFields {α : Type} (msg : α) (set : α → Field → α) (buf : Bytes) :
    Asks (fun memory => decodeFields memory msg set buf) (messageLengths buf) :=
  (asks_parseMessage buf).bind_nothing fun _ => pure_ne_crash _

/-- What the handlers of successive fields ask for, as long as they succeed. -/
def fieldsLengths {α : Type} (set : α → Field → Decoded α) (lengths : Field → List Nat) :
    α → List Field → List Nat
  | _, [] => []
  | msg, f :: rest => lengths f ++ afterOk (set msg f) fun msg => fieldsLengths set lengths msg rest

theorem asks_foldlM {α : Type} {set : Memory → α → Field → Decoded α} {lengths : Field → List Nat}
    (hset : ∀ msg f, Asks (fun memory => set memory msg f) (lengths f)) (msg : α)
    (fields : List Field) :
    Asks (fun memory => fields.foldlM (set memory) msg)
      (fieldsLengths (set unlimited) lengths msg fields) := by
  induction fields generalizing msg with
  | nil => exact Asks.nothing (pure_ne_crash _)
  | cons f rest ih =>
      simp only [List.foldlM_cons]
      exact (hset msg f).bind fun msg => ih msg

/-- What a decoder with embedded messages asks for. -/
def embeddingLengths {α : Type} (msg : α) (set : α → Field → Decoded α)
    (lengths : Field → List Nat) (buf : Bytes) : List Nat :=
  messageLengths buf ++ afterOk (parseMessage unlimited buf) (fieldsLengths set lengths msg)

theorem asks_decodeFieldsM {α : Type} {set : Memory → α → Field → Decoded α}
    {lengths : Field → List Nat} (hset : ∀ msg f, Asks (fun memory => set memory msg f) (lengths f))
    (msg : α) (buf : Bytes) :
    Asks (fun memory => decodeFieldsM memory msg (set memory) buf)
      (embeddingLengths msg (set unlimited) lengths buf) :=
  (asks_parseMessage buf).bind fun fields => asks_foldlM hset msg fields

/-- What the embedded message in a field asks for. -/
def embeddedLengths (lengths : Bytes → List Nat) (f : Field) : List Nat :=
  match fieldAsBytes f with
  | some b => lengths b
  | none => []

theorem asks_embedded {α β : Type} {decode : Memory → Bytes → Decoded β} {lengths : Bytes → List Nat}
    (hdecode : ∀ b, Asks (fun memory => decode memory b) (lengths b)) (msg : α) (store : β → Decoded α)
    (hstore : ∀ b, store b ≠ .error .crash) (f : Field) :
    Asks (fun memory => match fieldAsBytes f with
      | some b => decode memory b >>= store
      | none => pure msg) (embeddedLengths lengths f) := by
  unfold embeddedLengths
  cases fieldAsBytes f with
  | none => exact Asks.nothing (pure_ne_crash _)
  | some b => exact (hdecode b).bind_nothing hstore

def PortForwardSourceRequest.fieldLengths (f : Field) : List Nat :=
  if f.number = 1 ∨ f.number = 2 then embeddedLengths messageLengths f else []

theorem PortForwardSourceRequest.asks_set (msg : PortForwardSourceRequest) (f : Field) :
    Asks (fun memory => set memory msg f) (fieldLengths f) := by
  have hendpoint : ∀ b, Asks (fun memory => SocketEndpoint.decode memory b) (messageLengths b) :=
    asks_decodeFields _ _
  unfold set
  split
  · next hone =>
      rw [fieldLengths, if_pos (.inl hone)]
      exact asks_embedded hendpoint msg (fun source => pure { msg with source := some source })
        (fun _ => pure_ne_crash _) f
  · next htwo =>
      rw [fieldLengths, if_pos (.inr htwo)]
      exact asks_embedded hendpoint msg (fun destination => pure { msg with destination })
        (fun _ => pure_ne_crash _) f
  · next hthree =>
      rw [fieldLengths, if_neg (by rw [hthree]; decide)]
      exact Asks.nothing (pure_ne_crash _)
  · next hone htwo _ =>
      rw [fieldLengths, if_neg (fun h => h.elim hone htwo)]
      exact Asks.nothing (pure_ne_crash _)

def PortForwardSourceRequest.lengths (buf : Bytes) : List Nat :=
  embeddingLengths {} (set unlimited) fieldLengths buf

theorem PortForwardSourceRequest.asks_decode (buf : Bytes) :
    Asks (fun memory => decode memory buf) (lengths buf) := asks_decodeFieldsM asks_set {} buf

def InitialPayload.fieldLengths (f : Field) : List Nat :=
  if f.number = 2 then embeddedLengths PortForwardSourceRequest.lengths f
  else if f.number = 3 then embeddedLengths messageLengths f
  else []

theorem InitialPayload.asks_set (msg : InitialPayload) (f : Field) :
    Asks (fun memory => set memory msg f) (fieldLengths f) := by
  have hentry : ∀ b, Asks (fun memory => decodeFields memory (none, none) setEntry b)
      (messageLengths b) := asks_decodeFields _ _
  unfold set
  split
  · next hone =>
      rw [fieldLengths, if_neg (by rw [hone]; decide), if_neg (by rw [hone]; decide)]
      exact Asks.nothing (pure_ne_crash _)
  · next htwo =>
      rw [fieldLengths, if_pos htwo]
      exact asks_embedded PortForwardSourceRequest.asks_decode msg
        (fun tunnel => pure { msg with reverseTunnels := msg.reverseTunnels ++ [tunnel] })
        (fun _ => pure_ne_crash _) f
  · next hthree =>
      rw [fieldLengths, if_neg (by rw [hthree]; decide), if_pos hthree]
      exact asks_embedded hentry msg (fun entry => pure (msg.insertEntry entry))
        (fun _ => pure_ne_crash _) f
  · next _ htwo hthree =>
      rw [fieldLengths, if_neg htwo, if_neg hthree]
      exact Asks.nothing (pure_ne_crash _)

def InitialPayload.lengths (buf : Bytes) : List Nat :=
  embeddingLengths {} (set unlimited) fieldLengths buf

theorem InitialPayload.asks_decode (buf : Bytes) :
    Asks (fun memory => decode memory buf) (lengths buf) := asks_decodeFieldsM asks_set {} buf

/-! ### No decoder crashes, but for a refused length -/

theorem readProto_eq_crash {α : Type} [ProtoMessage α] {alloc : Allocator} {stream : Bytes} :
    readProto α alloc.grants stream = .error .crash ↔
      ∃ payload rest, stream = leBytes 8 payload.length ++ payload ++ rest
        ∧ payload.length ≤ maxProtoBytes
        ∧ (ProtoMessage.decode alloc.grants payload : Decoded α) = .error .crash := by
  constructor
  · intro hcrash
    have hlong : ¬ stream.length < 8 := by
      intro hshort
      rw [readProto, if_pos hshort] at hcrash
      simp at hcrash
    have hrange : 0 ≤ i64FromLeBytes (stream.take 8)
        ∧ i64FromLeBytes (stream.take 8) ≤ maxProtoBytes := by
      by_contra hinvalid
      rw [readProto, if_neg hlong] at hcrash
      simp only [hinvalid, not_false_eq_true, if_true] at hcrash
      simp at hcrash
    obtain ⟨n, hn⟩ := Int.eq_ofNat_of_zero_le hrange.1
    have hsize : n ≤ maxProtoBytes := by omega
    have hheader : stream.take 8 = leBytes 8 n :=
      leValue_of_i64FromLeBytes (by rw [List.length_take]; omega) hn
    have henough : ¬ (stream.drop 8).length < n := by
      intro hmissing
      rw [readProto, if_neg hlong] at hcrash
      simp only [hn, hmissing, Int.toNat_natCast, alloc.grants_message n hsize] at hcrash
      rw [← hn] at hcrash
      simp [hrange] at hcrash
    have htaken : ((stream.drop 8).take n).length = n := by
      rw [List.length_take]
      omega
    have hstream : stream = leBytes 8 ((stream.drop 8).take n).length ++ (stream.drop 8).take n
        ++ (stream.drop 8).drop n := by
      rw [htaken, ← hheader, List.append_assoc, List.take_append_drop, List.take_append_drop]
    refine ⟨_, _, hstream, by omega, ?_⟩
    rw [hstream, readProto_eq alloc (by omega)] at hcrash
    rcases hdecode : ProtoMessage.decode alloc.grants ((stream.drop 8).take n) with (_ | _) | msg
    · rw [hdecode] at hcrash
      simp at hcrash
    · rfl
    · rw [hdecode] at hcrash
      simp at hcrash
  · intro hgiven
    obtain ⟨payload, rest, rfl, hsize, hcrash⟩ := hgiven
    rw [readProto_eq alloc hsize, hcrash]

/-! ### A record that declares more than is left -/

/-- The record loop gets to a length-delimited record that declares more bytes than are behind it. -/
inductive Overlong : Bytes → Prop
  | here {buf afterTag rest : Bytes} {tag len : UInt64} : readVarint buf = .ok (tag, afterTag) →
      tag &&& 0x7 = 2 → readVarint afterTag = .ok (len, rest) → rest.length < len.toNat → Overlong buf
  | behind {buf rest : Bytes} {field : Field} : readRecord unlimited buf = .ok (field, rest) →
      Overlong rest → Overlong buf

/-- The same in a message some of whose fields hold messages. -/
def OverlongWithin (embedded : Field → Bytes → Prop) (buf : Bytes) : Prop :=
  Overlong buf ∨ ∃ fields f b, parseMessage unlimited buf = .ok fields ∧ f ∈ fields
    ∧ fieldAsBytes f = some b ∧ embedded f b

def PortForwardSourceRequest.Overlong (buf : Bytes) : Prop :=
  OverlongWithin (fun f b => (f.number = 1 ∨ f.number = 2) ∧ EternalTerminal.Overlong b) buf

def InitialPayload.Overlong (buf : Bytes) : Prop :=
  OverlongWithin (fun f b => f.number = 2 ∧ PortForwardSourceRequest.Overlong b
    ∨ f.number = 3 ∧ EternalTerminal.Overlong b) buf

theorem Asks.ok_unlimited {α : Type} {run : Memory → Decoded α} {lengths : List Nat}
    (h : Asks run lengths) {memory : Memory} {a : α} (hok : run memory = .ok a) :
    run unlimited = .ok a := by
  have hgranted := (h.not_crash_iff memory).mp (by simp [hok])
  rw [← h.granted memory hgranted, hok]

theorem readVarintField_ok {buf rest : Bytes} {v : UInt64} (h : readVarint buf = .ok (v, rest)) :
    readVarintField buf = .ok (v, rest) := by
  rw [readVarintField, h]
  rfl

/-- The value of such a record is refused, by the memory or for want of input. -/
theorem readRecord_ne_ok_of_overlong {memory : Memory} {buf afterTag rest : Bytes} {tag len : UInt64}
    (htag : readVarint buf = .ok (tag, afterTag)) (hbytes : tag &&& 0x7 = 2)
    (hlen : readVarint afterTag = .ok (len, rest)) (hshort : rest.length < len.toNat)
    (record : Field × Bytes) : readRecord memory buf ≠ .ok record := by
  intro hok
  obtain ⟨⟨tag', afterTag'⟩, htag', hrecord⟩ := Decoded.bind_eq_ok.mp hok
  obtain ⟨rfl, rfl⟩ := Prod.mk.inj (Except.ok.inj ((readVarintField_ok htag).symm.trans htag'))
  obtain ⟨value, hvalue, -⟩ := Decoded.bind_eq_ok.mp hrecord
  rw [hbytes] at hvalue
  obtain ⟨⟨len', rest'⟩, hlen', hbody⟩ := Decoded.bind_eq_ok.mp hvalue
  obtain ⟨rfl, rfl⟩ := Prod.mk.inj (Except.ok.inj ((readVarintField_ok hlen).symm.trans hlen'))
  obtain ⟨-, -, hexact⟩ := Decoded.bind_eq_ok.mp hbody
  simp [readExact, Nat.not_le.mpr hshort] at hexact

theorem Overlong.ne_nil {buf : Bytes} (h : Overlong buf) : buf ≠ [] := by
  rintro rfl
  cases h with
  | here htag => simp [readVarint, readVarintFrom] at htag
  | behind hrecord => simp [readRecord, readVarintField, readVarint, readVarintFrom, Except.mapError,
      bind, Except.bind] at hrecord

theorem Overlong.parseRecords_ne_ok {buf : Bytes} (h : Overlong buf) (memory : Memory) (turns : Nat)
    (fields : List Field) : parseRecords memory turns buf ≠ .ok fields := by
  induction h generalizing turns fields with
  | @here buf afterTag rest tag len htag hbytes hlen hshort =>
      intro hok
      obtain ⟨b, tail, rfl⟩ := List.exists_cons_of_ne_nil
        (Overlong.here htag hbytes hlen hshort).ne_nil
      cases turns with
      | zero => cases hok
      | succ turns =>
          obtain ⟨record, hrecord, -⟩ := Decoded.bind_eq_ok.mp hok
          exact readRecord_ne_ok_of_overlong htag hbytes hlen hshort record hrecord
  | @behind buf rest field hfirst hrest ih =>
      intro hok
      obtain ⟨b, tail, rfl⟩ := List.exists_cons_of_ne_nil (Overlong.behind hfirst hrest).ne_nil
      cases turns with
      | zero => cases hok
      | succ turns =>
          obtain ⟨record, hrecord, hlater⟩ := Decoded.bind_eq_ok.mp hok
          have hsame := (asks_readRecord (b :: tail)).ok_unlimited hrecord
          obtain rfl := Except.ok.inj (hfirst.symm.trans hsame)
          obtain ⟨later, hparsed, -⟩ := Decoded.bind_eq_ok.mp hlater
          exact ih turns later hparsed

theorem Overlong.decodeFields_ne_ok {α : Type} {buf : Bytes} (h : Overlong buf) (memory : Memory)
    (msg : α) (set : α → Field → α) (decoded : α) : decodeFields memory msg set buf ≠ .ok decoded := by
  intro hok
  obtain ⟨fields, hfields, -⟩ := Decoded.bind_eq_ok.mp hok
  exact h.parseRecords_ne_ok memory _ fields hfields

theorem foldlM_handles {α : Type} {set : α → Field → Decoded α} {fields : List Field} {msg decoded : α}
    (hok : fields.foldlM set msg = .ok decoded) {f : Field} (hmem : f ∈ fields) :
    ∃ before after, set before f = .ok after := by
  induction fields generalizing msg with
  | nil => cases hmem
  | cons first fields ih =>
      rw [List.foldlM_cons] at hok
      obtain ⟨next, hnext, hrest⟩ := Decoded.bind_eq_ok.mp hok
      rcases List.mem_cons.mp hmem with rfl | hlater
      · exact ⟨msg, next, hnext⟩
      · exact ih hrest hlater

theorem OverlongWithin.decodeFieldsM_ne_ok {α : Type} {embedded : Field → Bytes → Prop} {buf : Bytes}
    (h : OverlongWithin embedded buf) {memory : Memory} {set : α → Field → Decoded α}
    (hset : ∀ before after f b, fieldAsBytes f = some b → embedded f b → set before f ≠ .ok after)
    (msg decoded : α) : decodeFieldsM memory msg set buf ≠ .ok decoded := by
  intro hok
  obtain ⟨fields, hfields, hfold⟩ := Decoded.bind_eq_ok.mp hok
  rcases h with hoverlong | ⟨fields', f, b, hparsed, hmem, hbytes, hembedded⟩
  · exact hoverlong.parseRecords_ne_ok memory _ fields hfields
  · have hsame := (asks_parseMessage buf).ok_unlimited hfields
    obtain rfl := Except.ok.inj (hparsed.symm.trans hsame)
    obtain ⟨before, after, hafter⟩ := foldlM_handles hfold hmem
    exact hset before after f b hbytes hembedded hafter

theorem PortForwardSourceRequest.Overlong.decode_ne_ok {buf : Bytes}
    (h : PortForwardSourceRequest.Overlong buf) (memory : Memory) (decoded : PortForwardSourceRequest) :
    PortForwardSourceRequest.decode memory buf ≠ .ok decoded := by
  refine h.decodeFieldsM_ne_ok (fun before after f b hbytes hembedded hok => ?_) {} decoded
  obtain ⟨hnumber, hoverlong⟩ := hembedded
  have hendpoint := hoverlong.decodeFields_ne_ok memory ({} : SocketEndpoint) SocketEndpoint.set
  rcases hnumber with hone | htwo
  · simp only [set, hone, hbytes] at hok
    obtain ⟨source, hsource, -⟩ := Decoded.bind_eq_ok.mp hok
    exact hendpoint source hsource
  · simp only [set, htwo, hbytes] at hok
    obtain ⟨destination, hdestination, -⟩ := Decoded.bind_eq_ok.mp hok
    exact hendpoint destination hdestination

theorem InitialPayload.Overlong.decode_ne_ok {buf : Bytes} (h : InitialPayload.Overlong buf)
    (memory : Memory) (decoded : InitialPayload) : InitialPayload.decode memory buf ≠ .ok decoded := by
  refine h.decodeFieldsM_ne_ok (fun before after f b hbytes hembedded hok => ?_) {} decoded
  rcases hembedded with ⟨htwo, hoverlong⟩ | ⟨hthree, hoverlong⟩
  · simp only [set, htwo, hbytes] at hok
    obtain ⟨tunnel, htunnel, -⟩ := Decoded.bind_eq_ok.mp hok
    exact hoverlong.decode_ne_ok memory tunnel htunnel
  · simp only [set, hthree, hbytes] at hok
    obtain ⟨entry, hentry, -⟩ := Decoded.bind_eq_ok.mp hok
    exact hoverlong.decodeFields_ne_ok memory (none, none) setEntry entry hentry

/-! ### What a decoder owes its caller -/

/-- It returns, and with an error if a record declares more than is left. -/
structure Answers {α : Type} (result : Decoded α) (overlong : Prop) : Prop where
  returns : result ≠ .error .crash
  refuses : overlong → ∃ e, result = .error (.err e)

/-- The decoder of a message answers, and so does `read_proto` on a stream that begins with it. -/
structure AnswersProto (α : Type) [ProtoMessage α] (alloc : Allocator) (buf : Bytes)
    (overlong : Prop) : Prop where
  decode : Answers (ProtoMessage.decode alloc.grants buf : Decoded α) overlong
  read : buf.length ≤ maxProtoBytes → ∀ rest,
    readProto α alloc.grants (leBytes 8 buf.length ++ buf ++ rest) ≠ .error .crash
      ∧ (overlong → ∃ e, readProto α alloc.grants (leBytes 8 buf.length ++ buf ++ rest) =
        .error (.proto e))

theorem answers_iff {α : Type} {run : Memory → Decoded α} {lengths : List Nat} {overlong : Prop}
    (hasks : Asks run lengths) (hrefuses : overlong → ∀ memory a, run memory ≠ .ok a)
    (memory : Memory) : Answers (run memory) overlong ↔ ∀ len ∈ lengths, memory len = true := by
  refine ⟨fun h => (hasks.not_crash_iff memory).mp h.returns, fun hgranted => ?_⟩
  have hreturns := (hasks.not_crash_iff memory).mpr hgranted
  refine ⟨hreturns, fun hoverlong => ?_⟩
  rcases hresult : run memory with (e | _) | a
  · exact ⟨e, rfl⟩
  · exact absurd hresult hreturns
  · exact absurd hresult (hrefuses hoverlong memory a)

theorem answersProto_iff {α : Type} [ProtoMessage α] {buf : Bytes} {lengths : List Nat}
    {overlong : Prop}
    (hasks : Asks (fun memory => (ProtoMessage.decode memory buf : Decoded α)) lengths)
    (hrefuses : overlong → ∀ memory msg, (ProtoMessage.decode memory buf : Decoded α) ≠ .ok msg)
    (alloc : Allocator) :
    AnswersProto α alloc buf overlong ↔ ∀ len ∈ lengths, alloc.grants len = true := by
  have hiff := answers_iff hasks hrefuses alloc.grants
  refine ⟨fun h => hiff.mp h.decode, fun hgranted => ?_⟩
  have hdecode := hiff.mpr hgranted
  refine ⟨hdecode, fun hsize rest => ?_⟩
  rw [readProto_eq alloc hsize]
  refine ⟨?_, fun hoverlong => ?_⟩
  · rcases hresult : (ProtoMessage.decode alloc.grants buf : Decoded α) with (e | _) | msg
    · simp
    · exact absurd hresult hdecode.returns
    · simp
  · obtain ⟨e, he⟩ := hdecode.refuses hoverlong
    exact ⟨e, by rw [he]⟩

/-- **When decoding answers.** For every decoder, whatever the bytes: it returns a message or an error,
and an error where a record declares more than is left, and `read_proto` does the same, if and only if
every length that the records it gets to declare, its embedded messages included, is one that the memory
gives. -/
theorem decoders_answer_iff (alloc : Allocator) (buf : Bytes) :
    (Answers (parseMessage alloc.grants buf) (Overlong buf) ↔
        ∀ len ∈ messageLengths buf, alloc.grants len = true)
      ∧ (AnswersProto ConnectRequest alloc buf (Overlong buf) ↔
        ∀ len ∈ messageLengths buf, alloc.grants len = true)
      ∧ (AnswersProto ConnectResponse alloc buf (Overlong buf) ↔
        ∀ len ∈ messageLengths buf, alloc.grants len = true)
      ∧ (AnswersProto SequenceHeader alloc buf (Overlong buf) ↔
        ∀ len ∈ messageLengths buf, alloc.grants len = true)
      ∧ (AnswersProto CatchupBuffer alloc buf (Overlong buf) ↔
        ∀ len ∈ messageLengths buf, alloc.grants len = true)
      ∧ (AnswersProto TerminalBuffer alloc buf (Overlong buf) ↔
        ∀ len ∈ messageLengths buf, alloc.grants len = true)
      ∧ (AnswersProto TerminalInfo alloc buf (Overlong buf) ↔
        ∀ len ∈ messageLengths buf, alloc.grants len = true)
      ∧ (AnswersProto SocketEndpoint alloc buf (Overlong buf) ↔
        ∀ len ∈ messageLengths buf, alloc.grants len = true)
      ∧ (AnswersProto PortForwardSourceRequest alloc buf (PortForwardSourceRequest.Overlong buf) ↔
        ∀ len ∈ PortForwardSourceRequest.lengths buf, alloc.grants len = true)
      ∧ (AnswersProto InitialPayload alloc buf (InitialPayload.Overlong buf) ↔
        ∀ len ∈ InitialPayload.lengths buf, alloc.grants len = true)
      ∧ (AnswersProto InitialResponse alloc buf (Overlong buf) ↔
        ∀ len ∈ messageLengths buf, alloc.grants len = true) := by
  have hrefuses : ∀ {α : Type} (msg : α) (set : α → Field → α), Overlong buf → ∀ memory decoded,
      decodeFields memory msg set buf ≠ .ok decoded :=
    fun msg set hoverlong memory decoded => hoverlong.decodeFields_ne_ok memory msg set decoded
  refine ⟨answers_iff (asks_parseMessage buf)
      (fun hoverlong memory fields => hoverlong.parseRecords_ne_ok memory _ fields) alloc.grants,
    answersProto_iff (asks_decodeFields _ _ buf) (hrefuses _ _) alloc,
    answersProto_iff (asks_decodeFields _ _ buf) (hrefuses _ _) alloc,
    answersProto_iff (asks_decodeFields _ _ buf) (hrefuses _ _) alloc,
    answersProto_iff (asks_decodeFields _ _ buf) (hrefuses _ _) alloc,
    answersProto_iff (asks_decodeFields _ _ buf) (hrefuses _ _) alloc,
    answersProto_iff (asks_decodeFields _ _ buf) (hrefuses _ _) alloc,
    answersProto_iff (asks_decodeFields _ _ buf) (hrefuses _ _) alloc,
    answersProto_iff (PortForwardSourceRequest.asks_decode buf)
      (fun hoverlong => hoverlong.decode_ne_ok) alloc,
    answersProto_iff (InitialPayload.asks_decode buf) (fun hoverlong => hoverlong.decode_ne_ok) alloc,
    answersProto_iff (asks_decodeFields _ _ buf) (hrefuses _ _) alloc⟩

/-- A record that declares `2^64 - 1` bytes. -/
def overlongField : Bytes := [0x0a, 0xff, 0xff, 0xff, 0xff, 0xff, 0xff, 0xff, 0xff, 0xff, 0x01]

/-- As the answer to the sequence header it ends the reconnect thread, whatever memory there is. -/
theorem decoder_crashes_on_overlong_field :
    ¬ ∃ alloc : Allocator,
      readProto SequenceHeader alloc.grants (leBytes 8 overlongField.length ++ overlongField ++ []) ≠
        .error .crash := by
  intro hgiven
  obtain ⟨alloc, hok⟩ := hgiven
  have hlengths : messageLengths overlongField = [2 ^ 64 - 1] := by decide
  have hrefused : alloc.grants (2 ^ 64 - 1) = false := alloc.capacity _ (by norm_num [isizeMax])
  apply hok
  refine readProto_eq_crash.mpr ⟨overlongField, [], rfl, by decide, ?_⟩
  exact (asks_decodeFields {} SequenceHeader.set overlongField).refused alloc.grants (2 ^ 64 - 1)
    (by rw [hlengths]; exact List.mem_singleton_self _) hrefused

end EternalTerminal
