import EternalTerminal.Proof.Codec
import EternalTerminal.Proof.WireRecord

/-!
# Every message is read back

What the writer of a field appends is one record, so an encoded message parses to the list of its
fields, and the decoder's fold over that list puts each value back in its place. An embedded message is
part of the encoding it stands in and so no longer than that.
-/

namespace EternalTerminal

/-! ### The records of one field -/

/-- A message of these bytes parses to these fields. -/
def Encodes (alloc : Allocator) (buf : Bytes) (fields : List Field) : Prop :=
  buf.length ≤ maxProtoBytes → parseMessage alloc.grants buf = .ok fields

namespace Encodes

variable {alloc : Allocator}

theorem nil : Encodes alloc [] [] := fun _ => rfl

theorem append {first second : Bytes} {fields later : List Field} (hfirst : Encodes alloc first fields)
    (hsecond : Encodes alloc second later) : Encodes alloc (first ++ second) (fields ++ later) := by
  intro hsize
  rw [List.length_append] at hsize
  obtain ⟨records, rfl, hgranted, rfl⟩ := parseMessage_eq_ok.mp (hfirst (by omega))
  rw [parseMessage_append hgranted, hsecond (by omega)]
  rfl

theorem writeBytes (field : UInt32) (b : Bytes) :
    Encodes alloc (writeBytes field b) [⟨field, 2, b⟩] := by
  intro hsize
  have hlength : b.length ≤ maxProtoBytes := by
    refine le_trans ?_ hsize
    simp only [EternalTerminal.writeBytes, List.length_append]
    exact Nat.le_add_left _ _
  have hlen : (UInt64.ofNat b.length).toNat = b.length := by
    have hword : maxProtoBytes < 2 ^ 64 := by norm_num [maxProtoBytes]
    rw [UInt64.toNat_ofNat', Nat.mod_eq_of_lt (by omega)]
  have hrecord : readRecord alloc.grants (EternalTerminal.writeBytes field b) =
      .ok (⟨field, 2, b⟩, []) := by
    rw [EternalTerminal.writeBytes, List.append_assoc]
    apply readRecord_tag alloc.grants (by decide)
    refine Decoded.bind_eq_ok.mpr ⟨(UInt64.ofNat b.length, b), readVarintField_writeVarint _ _, ?_⟩
    refine Decoded.bind_eq_ok.mpr ⟨(), zeroed_eq_ok.mpr ?_, readExact_eq_ok.mpr ⟨?_, hlen.symm⟩⟩
    · rw [hlen]
      exact alloc.grants_message _ hlength
    · exact (List.append_nil b).symm
  rw [parseMessage_of_record hrecord]
  rfl

theorem varint (field : UInt32) (v : UInt64) :
    Encodes alloc (writeTag field 0 ++ writeVarint v) [⟨field, 0, writeVarint v⟩] := by
  intro _
  have hrecord := readRecord_varint alloc.grants field v []
  rw [List.append_nil] at hrecord
  rw [parseMessage_of_record hrecord]
  rfl

theorem option {α : Type} {write : α → Bytes} {field : α → Field}
    (hwrite : ∀ a, Encodes alloc (write a) [field a]) (o : Option α) :
    Encodes alloc (writeOption write o) (o.toList.map field) := by
  cases o with
  | none => exact nil
  | some a => exact hwrite a

theorem flatMap {α : Type} {write : α → Bytes} {field : α → Field}
    (hwrite : ∀ a, Encodes alloc (write a) [field a]) (l : List α) :
    Encodes alloc (l.flatMap write) (l.map field) := by
  induction l with
  | nil => exact nil
  | cons a l ih => exact (hwrite a).append ih

end Encodes

/-! ### Values as fields and back -/

def stringField (number : UInt32) (s : String) : Field := ⟨number, 2, s.toUTF8.data.toList⟩

def int32Field (number : UInt32) (v : Int32) : Field :=
  ⟨number, 0, writeVarint v.toInt64.toUInt64⟩

@[simp] theorem fieldAsString_stringField (number : UInt32) (s : String) :
    fieldAsString (stringField number s) = some s := by
  simp only [fieldAsString, stringField, if_true, Array.toArray_toList]
  exact dif_pos s.isValidUTF8

@[simp] theorem fieldAsBytes_bytes (number : UInt32) (b : Bytes) :
    fieldAsBytes ⟨number, 2, b⟩ = some b := rfl

@[simp] theorem fieldAsVarint_int32Field (number : UInt32) (v : Int32) :
    fieldAsVarint (int32Field number v) = some v.toInt64.toUInt64 := fieldAsVarint_varint number _

@[simp] theorem number_stringField (number : UInt32) (s : String) :
    (stringField number s).number = number := rfl

@[simp] theorem number_int32Field (number : UInt32) (v : Int32) :
    (int32Field number v).number = number := rfl

theorem encodes_writeString (alloc : Allocator) (field : UInt32) (s : String) :
    Encodes alloc (writeString field s) [stringField field s] := .writeBytes field _

theorem encodes_writeEmbedded (alloc : Allocator) (field : UInt32) (payload : Bytes) :
    Encodes alloc (writeEmbedded field payload) [⟨field, 2, payload⟩] := .writeBytes field _

theorem encodes_writeInt32 (alloc : Allocator) (field : UInt32) (v : Int32) :
    Encodes alloc (writeInt32 field v) [int32Field field v] := .varint field _

@[simp] theorem fromI32_toI32 (status : ConnectStatus) :
    ConnectStatus.fromI32 status.toI32 = some status := by
  cases status <;> rfl

/-! ### Messages without embedded messages -/

theorem Encodes.decodeFields {α : Type} {alloc : Allocator} {buf : Bytes} {fields : List Field}
    (h : Encodes alloc buf fields) (hsize : buf.length ≤ maxProtoBytes) {set : α → Field → α}
    {init msg : α} (hfold : fields.foldl set init = msg) :
    decodeFields alloc.grants init set buf = .ok msg := by
  rw [EternalTerminal.decodeFields, h hsize, ← hfold]
  rfl

/-- The decoder gives back what was encoded. -/
def DecodesBack {α : Type} [ProtoMessage α] (alloc : Allocator) (msg : α) : Prop :=
  (ProtoMessage.encode msg).length ≤ maxProtoBytes →
    ProtoMessage.decode alloc.grants (ProtoMessage.encode msg) = .ok msg

section

variable (alloc : Allocator)

theorem ConnectRequest.decodesBack (msg : ConnectRequest) : DecodesBack alloc msg := by
  have hfields := (Encodes.option (encodes_writeString alloc 1) msg.clientId).append
    (.option (encodes_writeInt32 alloc 2) msg.version)
  intro hsize
  apply hfields.decodeFields hsize
  obtain ⟨_ | id, _ | version⟩ := msg <;> simp [set]

theorem ConnectResponse.decodesBack (msg : ConnectResponse) : DecodesBack alloc msg := by
  have hfields := (Encodes.option (fun s => encodes_writeInt32 alloc 1 (ConnectStatus.toI32 s))
    msg.status).append (.option (encodes_writeString alloc 2) msg.error)
  intro hsize
  apply hfields.decodeFields hsize
  obtain ⟨_ | status, _ | error⟩ := msg <;> simp [set]

theorem SequenceHeader.decodesBack (msg : SequenceHeader) : DecodesBack alloc msg :=
  fun _ => decode_encode alloc.grants msg

theorem CatchupBuffer.decodesBack (msg : CatchupBuffer) : DecodesBack alloc msg := by
  have hfields := Encodes.flatMap (encodes_writeEmbedded alloc 1) msg.buffer
  intro hsize
  apply hfields.decodeFields hsize
  have hfold : ∀ (entries queued : List Bytes),
      (entries.map fun b => (⟨1, 2, b⟩ : Field)).foldl set ⟨queued⟩ = ⟨queued ++ entries⟩ := by
    intro entries
    induction entries with
    | nil => simp
    | cons b entries ih => intro queued; simp [set, ih]
  exact hfold msg.buffer []

theorem TerminalBuffer.decodesBack (msg : TerminalBuffer) : DecodesBack alloc msg := by
  have hfields := Encodes.option (encodes_writeEmbedded alloc 1) msg.buffer
  intro hsize
  apply hfields.decodeFields hsize
  obtain ⟨_ | buffer⟩ := msg <;> simp [set]

theorem TerminalInfo.decodesBack (msg : TerminalInfo) : DecodesBack alloc msg := by
  have hfields := ((((Encodes.option (encodes_writeString alloc 1) msg.id).append
    (.option (encodes_writeInt32 alloc 2) msg.row)).append
    (.option (encodes_writeInt32 alloc 3) msg.column)).append
    (.option (encodes_writeInt32 alloc 4) msg.width)).append
    (.option (encodes_writeInt32 alloc 5) msg.height)
  intro hsize
  apply hfields.decodeFields hsize
  obtain ⟨_ | id, _ | row, _ | column, _ | width, _ | height⟩ := msg <;> simp [set]

theorem SocketEndpoint.decodesBack (msg : SocketEndpoint) : DecodesBack alloc msg := by
  have hfields := (Encodes.option (encodes_writeString alloc 1) msg.name).append
    (.option (encodes_writeInt32 alloc 2) msg.port)
  intro hsize
  apply hfields.decodeFields hsize
  obtain ⟨_ | name, _ | port⟩ := msg <;> simp [set]

theorem InitialResponse.decodesBack (msg : InitialResponse) : DecodesBack alloc msg := by
  have hfields := Encodes.option (encodes_writeString alloc 1) msg.error
  intro hsize
  apply hfields.decodeFields hsize
  obtain ⟨_ | error⟩ := msg <;> simp [set]

end

/-! ### Messages with embedded messages -/

theorem Encodes.decodeFieldsM {α : Type} {alloc : Allocator} {buf : Bytes} {fields : List Field}
    (h : Encodes alloc buf fields) (hsize : buf.length ≤ maxProtoBytes) {set : α → Field → Decoded α}
    {init msg : α} (hfold : fields.foldlM set init = .ok msg) :
    decodeFieldsM alloc.grants init set buf = .ok msg := by
  rw [EternalTerminal.decodeFieldsM, h hsize]
  exact hfold

theorem length_le_writeBytes (field : UInt32) (b : Bytes) : b.length ≤ (writeBytes field b).length := by
  simp only [writeBytes, List.length_append]
  exact Nat.le_add_left _ _

theorem length_le_flatMap {α : Type} (write : α → Bytes) {a : α} {l : List α} (h : a ∈ l) :
    (write a).length ≤ (l.flatMap write).length := by
  rw [List.flatMap_def]
  exact (List.sublist_flatten_of_mem (List.mem_map_of_mem h)).length_le

theorem foldlM_option {α β : Type} {set : α → Field → Decoded α} {field : β → Field} {o : Option β}
    (put : Option β → α) (hset : ∀ b, o = some b → set (put none) (field b) = .ok (put (some b))) :
    (o.toList.map field).foldlM set (put none) = .ok (put o) := by
  cases o with
  | none => rfl
  | some b =>
      simp only [Option.toList_some, List.map_cons, List.map_nil, List.foldlM_cons, List.foldlM_nil,
        hset b rfl]
      rfl

namespace PortForwardSourceRequest

variable (alloc : Allocator)

theorem set_source {source : SocketEndpoint}
    (hsize : (SocketEndpoint.encode source).length ≤ maxProtoBytes) (msg : PortForwardSourceRequest) :
    set alloc.grants msg ⟨1, 2, SocketEndpoint.encode source⟩ =
      .ok { msg with source := some source } := by
  have hdecode : SocketEndpoint.decode alloc.grants (SocketEndpoint.encode source) = .ok source :=
    SocketEndpoint.decodesBack alloc source hsize
  simp only [set, fieldAsBytes_bytes, hdecode]
  rfl

theorem set_destination {destination : SocketEndpoint}
    (hsize : (SocketEndpoint.encode destination).length ≤ maxProtoBytes)
    (msg : PortForwardSourceRequest) :
    set alloc.grants msg ⟨2, 2, SocketEndpoint.encode destination⟩ =
      .ok { msg with destination := some destination } := by
  have hdecode : SocketEndpoint.decode alloc.grants (SocketEndpoint.encode destination) =
      .ok destination := SocketEndpoint.decodesBack alloc destination hsize
  simp only [set, fieldAsBytes_bytes, hdecode]
  rfl

theorem set_environmentVariable (e : String) (msg : PortForwardSourceRequest) :
    set alloc.grants msg (stringField 3 e) = .ok { msg with environmentVariable := some e } := by
  simp only [set, number_stringField, fieldAsString_stringField]
  rfl

theorem decodesBack (msg : PortForwardSourceRequest) : DecodesBack alloc msg := by
  have hfields := ((Encodes.option (fun s => encodes_writeEmbedded alloc 1 (SocketEndpoint.encode s))
    msg.source).append (.option (fun d => encodes_writeEmbedded alloc 2 (SocketEndpoint.encode d))
      msg.destination)).append (.option (encodes_writeString alloc 3) msg.environmentVariable)
  intro hsize
  apply hfields.decodeFieldsM hsize
  have hsource : ∀ s, msg.source = some s → (SocketEndpoint.encode s).length ≤ maxProtoBytes := by
    intro s hs
    refine (length_le_writeBytes 1 _).trans (le_trans ?_ hsize)
    change _ ≤ (encode msg).length
    simp only [encode, hs, writeOption, writeEmbedded, List.length_append]
    omega
  have hdestination : ∀ d, msg.destination = some d →
      (SocketEndpoint.encode d).length ≤ maxProtoBytes := by
    intro d hd
    refine (length_le_writeBytes 2 _).trans (le_trans ?_ hsize)
    change _ ≤ (encode msg).length
    simp only [encode, hd, writeOption, writeEmbedded, List.length_append]
    omega
  rw [List.foldlM_append, List.foldlM_append]
  have hone := foldlM_option (fun source => ({ source } : PortForwardSourceRequest))
    fun s hs => set_source alloc (hsource s hs) {}
  have htwo := foldlM_option
    (fun destination => ({ source := msg.source, destination } : PortForwardSourceRequest))
    fun d hd => set_destination alloc (hdestination d hd) { source := msg.source }
  have hthree : (msg.environmentVariable.toList.map (stringField 3)).foldlM (set alloc.grants) _ = _ :=
    foldlM_option (fun environmentVariable => { msg with environmentVariable })
      fun e _ => set_environmentVariable alloc e { msg with environmentVariable := none }
  exact Decoded.bind_eq_ok.mpr ⟨_, Decoded.bind_eq_ok.mpr ⟨_, hone, htwo⟩, hthree⟩

end PortForwardSourceRequest

/-- Two maps with the same entries, in whatever order. -/
def EnvironmentVariables.Same (left right : EnvironmentVariables) : Prop :=
  ∀ key, left.lookup key = right.lookup key

/-- The entries put into a map one by one. -/
def EnvironmentVariables.insertAll (start : EnvironmentVariables)
    (entries : List (Sigma fun _ : String => String)) : EnvironmentVariables :=
  entries.foldl (fun env entry => env.insert entry.1 entry.2) start

theorem EnvironmentVariables.lookup_insertAll (start : EnvironmentVariables)
    {entries : List (Sigma fun _ : String => String)} (hkeys : entries.NodupKeys) (key : String) :
    (start.insertAll entries).lookup key = (entries.dlookup key).or (start.lookup key) := by
  unfold insertAll
  induction entries generalizing start with
  | nil => rfl
  | cons entry entries ih =>
      obtain ⟨hnew, hrest⟩ := List.nodupKeys_cons.mp hkeys
      rw [List.foldl_cons, ih _ hrest]
      by_cases hkey : key = entry.1
      · subst hkey
        rw [List.dlookup_eq_none.mpr hnew, AList.lookup_insert]
        rw [Option.none_or, List.dlookup_cons_eq, Option.some_or]
      · rw [AList.lookup_insert_ne hkey, List.dlookup_cons_ne _ _ hkey]

namespace InitialPayload

variable (alloc : Allocator)

/-- The fields of a map entry. -/
def entryBytes (key value : String) : Bytes := writeString 1 key ++ writeString 2 value

theorem set_jumphost (msg : InitialPayload) :
    set alloc.grants msg ⟨1, 0, writeVarint 1⟩ = .ok { msg with jumphost := some true } := by
  simp only [set, fieldAsVarint_varint]
  rfl

theorem set_reverseTunnel {tunnel : PortForwardSourceRequest}
    (hsize : (PortForwardSourceRequest.encode tunnel).length ≤ maxProtoBytes) (msg : InitialPayload) :
    set alloc.grants msg ⟨2, 2, PortForwardSourceRequest.encode tunnel⟩ =
      .ok { msg with reverseTunnels := msg.reverseTunnels ++ [tunnel] } := by
  have hdecode : PortForwardSourceRequest.decode alloc.grants
      (PortForwardSourceRequest.encode tunnel) = .ok tunnel :=
    PortForwardSourceRequest.decodesBack alloc tunnel hsize
  simp only [set, fieldAsBytes_bytes, hdecode]
  rfl

theorem set_environmentVariable {key value : String}
    (hsize : (entryBytes key value).length ≤ maxProtoBytes) (msg : InitialPayload) :
    set alloc.grants msg ⟨3, 2, entryBytes key value⟩ =
      .ok { msg with environmentVariables := msg.environmentVariables.insert key value } := by
  have hfields := (encodes_writeString alloc 1 key).append (encodes_writeString alloc 2 value)
  have hentry : decodeFields alloc.grants (none, none) setEntry (entryBytes key value) =
      .ok (some key, some value) := hfields.decodeFields hsize (by simp [setEntry])
  simp only [set, fieldAsBytes_bytes, hentry]
  rfl

theorem foldlM_jumphost (jumphost : Option Bool) :
    (if jumphost = some true then [(⟨1, 0, writeVarint 1⟩ : Field)] else []).foldlM
      (set alloc.grants) {} = .ok { jumphost := jumphost.filter id } := by
  rcases jumphost with _ | _ | _
  · rfl
  · rfl
  · simp only [if_true, List.foldlM_cons, set_jumphost]
    rfl

theorem foldlM_reverseTunnels {tunnels : List PortForwardSourceRequest}
    (hsize : ∀ rt ∈ tunnels, (PortForwardSourceRequest.encode rt).length ≤ maxProtoBytes)
    (msg : InitialPayload) :
    (tunnels.map fun rt => (⟨2, 2, PortForwardSourceRequest.encode rt⟩ : Field)).foldlM
      (set alloc.grants) msg = .ok { msg with reverseTunnels := msg.reverseTunnels ++ tunnels } := by
  induction tunnels generalizing msg with
  | nil => simp [pure, Except.pure]
  | cons rt tunnels ih =>
      obtain ⟨hhead, htail⟩ := List.forall_mem_cons.mp hsize
      rw [List.map_cons, List.foldlM_cons, set_reverseTunnel alloc hhead]
      apply (ih htail _).trans
      simp

theorem foldlM_environmentVariables {entries : List (Sigma fun _ : String => String)}
    (hsize : ∀ entry ∈ entries, (entryBytes entry.1 entry.2).length ≤ maxProtoBytes)
    (msg : InitialPayload) :
    (entries.map fun entry => (⟨3, 2, entryBytes entry.1 entry.2⟩ : Field)).foldlM
      (set alloc.grants) msg = .ok { msg with
        environmentVariables := msg.environmentVariables.insertAll entries } := by
  induction entries generalizing msg with
  | nil => rfl
  | cons entry entries ih =>
      obtain ⟨hhead, htail⟩ := List.forall_mem_cons.mp hsize
      rw [List.map_cons, List.foldlM_cons, set_environmentVariable alloc hhead]
      exact ih htail _

theorem encodes (msg : InitialPayload) :
    Encodes alloc (encode msg)
      ((if msg.jumphost = some true then [⟨1, 0, writeVarint 1⟩] else [])
        ++ (msg.reverseTunnels.map fun rt => ⟨2, 2, PortForwardSourceRequest.encode rt⟩)
        ++ msg.environmentVariables.entries.map fun entry => ⟨3, 2, entryBytes entry.1 entry.2⟩) := by
  refine (Encodes.append ?_ (.flatMap (fun rt => encodes_writeEmbedded alloc 2 _) _)).append
    (.flatMap (fun entry => encodes_writeEmbedded alloc 3 _) _)
  split_ifs
  · exact .varint 1 1
  · exact .nil

/-- What comes back: `Some(false)` is not written, and the map is filled anew. -/
theorem decodesBack (msg : InitialPayload) (hsize : (encode msg).length ≤ maxProtoBytes) :
    ∃ environmentVariables, decode alloc.grants (encode msg) =
        .ok { msg with jumphost := msg.jumphost.filter id, environmentVariables }
      ∧ environmentVariables.Same msg.environmentVariables := by
  have htunnels : ∀ rt ∈ msg.reverseTunnels,
      (PortForwardSourceRequest.encode rt).length ≤ maxProtoBytes := by
    intro rt hmem
    have hpart := length_le_writeBytes 2 (PortForwardSourceRequest.encode rt)
    have hwhole := length_le_flatMap
      (fun rt => writeEmbedded 2 (PortForwardSourceRequest.encode rt)) hmem
    change (writeBytes 2 (PortForwardSourceRequest.encode rt)).length ≤ _ at hwhole
    simp only [encode, List.length_append] at hsize
    omega
  have hentries : ∀ entry ∈ msg.environmentVariables.entries,
      (entryBytes entry.1 entry.2).length ≤ maxProtoBytes := by
    intro entry hmem
    have hpart : (entryBytes entry.1 entry.2).length ≤
        (writeMapEntryStringString 3 entry.1 entry.2).length := length_le_writeBytes 3 _
    have hwhole := length_le_flatMap (fun entry => writeMapEntryStringString 3 entry.1 entry.2) hmem
    simp only [encode, List.length_append] at hsize
    omega
  have hfold := foldlM_jumphost alloc msg.jumphost
  have hmore := foldlM_reverseTunnels alloc htunnels { jumphost := msg.jumphost.filter id }
  have hrest := foldlM_environmentVariables alloc hentries
    { jumphost := msg.jumphost.filter id, reverseTunnels := msg.reverseTunnels }
  refine ⟨EnvironmentVariables.insertAll ∅ msg.environmentVariables.entries,
    (encodes alloc msg).decodeFieldsM hsize ?_, fun key => ?_⟩
  · rw [List.foldlM_append, List.foldlM_append, hfold]
    exact Decoded.bind_eq_ok.mpr ⟨_, hmore, hrest⟩
  · rw [EnvironmentVariables.lookup_insertAll _ msg.environmentVariables.nodupKeys,
      AList.lookup_empty, Option.or_none]
    rfl

end InitialPayload

/-- The stream holds the message and then `rest`: the message is read, and nothing of `rest` is. -/
def ReadsBack {α : Type} [ProtoMessage α] (alloc : Allocator) (msg : α) (rest : Bytes) : Prop :=
  (ProtoMessage.encode msg).length ≤ maxProtoBytes →
    readProto α alloc.grants (writeProto msg ++ rest) = .ok (msg, rest)

theorem DecodesBack.readsBack {α : Type} [ProtoMessage α] {alloc : Allocator} {msg : α}
    (h : DecodesBack alloc msg) (rest : Bytes) : ReadsBack alloc msg rest :=
  fun hsize => readProto_writeProto hsize (h hsize) rest

/-- **Every message is read back from a stream**, whatever follows it, if `read_proto` accepts its
length. A `jumphost` of `Some(false)` comes back as `None`, and the map of an `InitialPayload` in an
order of its own. -/
theorem messages_read_back (alloc : Allocator) (rest : Bytes) :
    (∀ msg : ConnectRequest, ReadsBack alloc msg rest)
      ∧ (∀ msg : ConnectResponse, ReadsBack alloc msg rest)
      ∧ (∀ msg : SequenceHeader, ReadsBack alloc msg rest)
      ∧ (∀ msg : CatchupBuffer, ReadsBack alloc msg rest)
      ∧ (∀ msg : TerminalBuffer, ReadsBack alloc msg rest)
      ∧ (∀ msg : TerminalInfo, ReadsBack alloc msg rest)
      ∧ (∀ msg : SocketEndpoint, ReadsBack alloc msg rest)
      ∧ (∀ msg : PortForwardSourceRequest, ReadsBack alloc msg rest)
      ∧ (∀ msg : InitialPayload, (ProtoMessage.encode msg).length ≤ maxProtoBytes →
          ∃ environmentVariables, readProto InitialPayload alloc.grants (writeProto msg ++ rest) =
              .ok ({ msg with jumphost := msg.jumphost.filter id, environmentVariables }, rest)
            ∧ environmentVariables.Same msg.environmentVariables)
      ∧ (∀ msg : InitialResponse, ReadsBack alloc msg rest) := by
  refine ⟨fun msg => (msg.decodesBack alloc).readsBack rest,
    fun msg => (msg.decodesBack alloc).readsBack rest,
    fun msg => (msg.decodesBack alloc).readsBack rest,
    fun msg => (msg.decodesBack alloc).readsBack rest,
    fun msg => (msg.decodesBack alloc).readsBack rest,
    fun msg => (msg.decodesBack alloc).readsBack rest,
    fun msg => (msg.decodesBack alloc).readsBack rest,
    fun msg => (msg.decodesBack alloc).readsBack rest, fun msg hsize => ?_,
    fun msg => (msg.decodesBack alloc).readsBack rest⟩
  obtain ⟨environmentVariables, hdecode, hsame⟩ := msg.decodesBack alloc hsize
  exact ⟨environmentVariables, readProto_writeProto hsize hdecode rest, hsame⟩

/-- A request with an empty name, and a byte behind it. -/
theorem messages_read_back_empty_name :
    readProto ConnectRequest messageAllocator.grants
        (writeProto ({ clientId := some "", version := some (-1) } : ConnectRequest) ++ [0x2a]) =
      .ok ({ clientId := some "", version := some (-1) }, [0x2a]) :=
  (messages_read_back messageAllocator [0x2a]).1 _ (by decide +kernel)

end EternalTerminal
