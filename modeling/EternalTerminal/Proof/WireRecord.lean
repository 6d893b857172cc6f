import EternalTerminal.Proof.Record

/-!
# Messages are lists of records

A record is a varint tag and the complete value of the tag's wire type; `WireRecord` carries both with
the proofs that they are. The record loop accepts exactly the concatenations of such records, so what it
makes of a message is settled record by record, and a message that is cut inside a record is not one.
-/

namespace EternalTerminal

/-- A varint as it may stand on the wire: any form of at most ten bytes. -/
structure WireVarint where
  bytes : Bytes
  value : Nat
  decode_eq : Base128.decode bytes = some (value, [])
  length_le : bytes.length ≤ 10

/-- The form that the encoder writes. -/
def WireVarint.ofUInt64 (v : UInt64) : WireVarint where
  bytes := writeVarint v
  value := v.toNat
  decode_eq := by
    have hdecode := Base128.decode_encode v.toNat []
    rwa [List.append_nil, ← writeVarint_eq] at hdecode
  length_le := length_writeVarint_le v

/-- The value of a record. A declared length is read modulo `2^64`, as every varint. -/
inductive WireValue where
  | varint (v : WireVarint)
  | fixed64 (data : Bytes) (length_eq : data.length = 8)
  | delimited (len : WireVarint) (data : Bytes) (length_eq : data.length = len.value % 2 ^ 64)
  | fixed32 (data : Bytes) (length_eq : data.length = 4)

namespace WireValue

def wireType : WireValue → UInt32
  | varint _ => 0
  | fixed64 _ _ => 1
  | delimited _ _ _ => 2
  | fixed32 _ _ => 5

def bytes : WireValue → Bytes
  | varint v => v.bytes
  | fixed64 data _ => data
  | delimited len data _ => len.bytes ++ data
  | fixed32 data _ => data

/-- What `parse_message` keeps: a varint anew in its shortest form. -/
def data : WireValue → Bytes
  | varint v => writeVarint (UInt64.ofNat v.value)
  | fixed64 data _ => data
  | delimited _ data _ => data
  | fixed32 data _ => data

/-- The memory gives the declared length. -/
def Granted (memory : Memory) : WireValue → Prop
  | delimited _ data _ => memory data.length = true
  | _ => True

end WireValue

/-- A well-formed record. -/
structure WireRecord where
  tag : WireVarint
  value : WireValue
  wireType_eq : tag.value % 8 = value.wireType.toNat

namespace WireRecord

def bytes (record : WireRecord) : Bytes := record.tag.bytes ++ record.value.bytes

/-- The field number in full, `tag >> 3` of the `u64`. -/
def number (record : WireRecord) : Nat := record.tag.value % 2 ^ 64 / 8

/-- What `parse_message` makes of it: the field number is cut to 32 bits. -/
def field (record : WireRecord) : Field :=
  ⟨UInt32.ofNat record.number, record.value.wireType, record.value.data⟩

def Granted (memory : Memory) (record : WireRecord) : Prop := record.value.Granted memory

end WireRecord

/-- The bytes of a list of records. -/
def messageBytes (records : List WireRecord) : Bytes := records.flatMap WireRecord.bytes

@[simp] theorem messageBytes_nil : messageBytes [] = [] := rfl

@[simp] theorem messageBytes_cons (record : WireRecord) (records : List WireRecord) :
    messageBytes (record :: records) = record.bytes ++ messageBytes records := rfl

@[simp] theorem messageBytes_append (first second : List WireRecord) :
    messageBytes (first ++ second) = messageBytes first ++ messageBytes second :=
  List.flatMap_append

/-! ### What each reader takes off the front -/

theorem readVarintField_eq_ok {buf rest : Bytes} {v : UInt64} :
    readVarintField buf = .ok (v, rest) ↔
      ∃ w : WireVarint, buf = w.bytes ++ rest ∧ v = UInt64.ofNat w.value := by
  have hvalue : ∀ n : Nat, v.toNat = n % 2 ^ 64 ↔ v = UInt64.ofNat n := by
    intro n
    rw [← UInt64.toNat_inj, UInt64.toNat_ofNat']
  have hread : readVarintField buf = .ok (v, rest) ↔ readVarint buf = .ok (v, rest) := by
    rw [readVarintField]
    cases readVarint buf <;> simp [Except.mapError]
  rw [hread, readVarint_eq_ok]
  constructor
  · intro hgiven
    obtain ⟨n, hdecode, hlength, hv⟩ := hgiven
    obtain ⟨own, rfl, hown⟩ := Base128.decode_eq_some.mp hdecode
    rw [List.length_append] at hlength
    exact ⟨⟨own, n, hown, by omega⟩, rfl, (hvalue n).mp hv⟩
  · intro hgiven
    obtain ⟨w, rfl, hv⟩ := hgiven
    refine ⟨w.value, Base128.decode_eq_some.mpr ⟨w.bytes, rfl, w.decode_eq⟩, ?_,
      (hvalue w.value).mpr hv⟩
    rw [List.length_append]
    exact Nat.add_le_add_right w.length_le _

theorem readExact_eq_ok {n : Nat} {buf data rest : Bytes} :
    readExact n buf = .ok (data, rest) ↔ buf = data ++ rest ∧ data.length = n := by
  rw [readExact]
  constructor
  · intro h
    split_ifs at h with hle
    obtain ⟨rfl, rfl⟩ := Prod.mk.inj (Except.ok.inj h)
    exact ⟨(List.take_append_drop n buf).symm, by rw [List.length_take]; omega⟩
  · intro h
    obtain ⟨rfl, rfl⟩ := h
    have hle : data.length ≤ (data ++ rest).length := by simp
    rw [if_pos hle, List.take_left, List.drop_left]

theorem zeroed_eq_ok {memory : Memory} {len : Nat} :
    zeroed memory len = .ok () ↔ memory len = true := by
  rw [zeroed]
  split_ifs with hgranted
  · exact iff_of_true rfl hgranted
  · exact iff_of_false nofun hgranted

theorem readValue_eq_ok {memory : Memory} {wireType : UInt32} {buf data rest : Bytes} :
    readValue memory wireType buf = .ok (data, rest) ↔
      ∃ value : WireValue, value.Granted memory ∧ value.wireType = wireType ∧ value.data = data
        ∧ buf = value.bytes ++ rest := by
  constructor
  · intro h
    unfold readValue at h
    split at h
    · obtain ⟨⟨v, after⟩, hvarint, hpure⟩ := Decoded.bind_eq_ok.mp h
      obtain ⟨rfl, rfl⟩ := Prod.mk.inj (Except.ok.inj hpure)
      obtain ⟨w, rfl, rfl⟩ := readVarintField_eq_ok.mp hvarint
      exact ⟨.varint w, trivial, rfl, rfl, rfl⟩
    · obtain ⟨rfl, hlength⟩ := readExact_eq_ok.mp h
      exact ⟨.fixed64 data hlength, trivial, rfl, rfl, rfl⟩
    · obtain ⟨⟨len, after⟩, hvarint, hrest⟩ := Decoded.bind_eq_ok.mp h
      obtain ⟨⟨⟩, hzeroed, hexact⟩ := Decoded.bind_eq_ok.mp hrest
      obtain ⟨w, rfl, rfl⟩ := readVarintField_eq_ok.mp hvarint
      obtain ⟨rfl, hlength⟩ := readExact_eq_ok.mp hexact
      have hmemory : memory data.length = true := by
        rw [hlength]
        exact zeroed_eq_ok.mp hzeroed
      refine ⟨.delimited w data ?_, hmemory, rfl, rfl, (List.append_assoc ..).symm⟩
      rw [hlength, UInt64.toNat_ofNat']
    · obtain ⟨rfl, hlength⟩ := readExact_eq_ok.mp h
      exact ⟨.fixed32 data hlength, trivial, rfl, rfl, rfl⟩
    · exact absurd h nofun
  · intro h
    obtain ⟨value, hgranted, rfl, rfl, rfl⟩ := h
    cases value with
    | varint v =>
        exact Decoded.bind_eq_ok.mpr ⟨_, readVarintField_eq_ok.mpr ⟨v, rfl, rfl⟩, rfl⟩
    | fixed64 data length_eq => exact readExact_eq_ok.mpr ⟨rfl, length_eq⟩
    | delimited len data length_eq =>
        have hlen : (UInt64.ofNat len.value).toNat = data.length := by
          rw [UInt64.toNat_ofNat', length_eq]
        refine Decoded.bind_eq_ok.mpr ⟨(UInt64.ofNat len.value, data ++ rest),
          readVarintField_eq_ok.mpr ⟨len, List.append_assoc .., rfl⟩,
          Decoded.bind_eq_ok.mpr ⟨(), ?_, readExact_eq_ok.mpr ⟨rfl, hlen.symm⟩⟩⟩
        rw [hlen]
        exact zeroed_eq_ok.mpr hgranted
    | fixed32 data length_eq => exact readExact_eq_ok.mpr ⟨rfl, length_eq⟩

theorem tag_parts (n : Nat) :
    (UInt64.ofNat n >>> 3).toUInt32 = UInt32.ofNat (n % 2 ^ 64 / 8)
      ∧ (UInt64.ofNat n &&& 0x7).toUInt32 = UInt32.ofNat (n % 8) := by
  constructor
  · apply UInt32.toNat.inj
    rw [UInt64.toNat_toUInt32, UInt64.toNat_shiftRight, UInt64.toNat_ofNat', UInt32.toNat_ofNat']
    simp [Nat.shiftRight_eq_div_pow]
  · have hmask : ∀ m : Nat, m &&& 7 = m % 8 := fun m => Nat.and_two_pow_sub_one_eq_mod m 3
    apply UInt32.toNat.inj
    rw [UInt64.toNat_toUInt32, UInt64.toNat_and, UInt64.toNat_ofNat', UInt32.toNat_ofNat']
    simp only [UInt64.reduceToNat, hmask]
    omega

/-- The reader of a record accepts exactly the records, and leaves what is behind them. -/
theorem readRecord_eq_ok {memory : Memory} {buf rest : Bytes} {field : Field} :
    readRecord memory buf = .ok (field, rest) ↔
      ∃ record : WireRecord, record.Granted memory ∧ record.field = field
        ∧ buf = record.bytes ++ rest := by
  constructor
  · intro h
    obtain ⟨⟨tag, after⟩, htag, hrest⟩ := Decoded.bind_eq_ok.mp h
    obtain ⟨⟨data, last⟩, hvalue, hpure⟩ := Decoded.bind_eq_ok.mp hrest
    obtain ⟨rfl, rfl⟩ := Prod.mk.inj (Except.ok.inj hpure)
    obtain ⟨w, rfl, rfl⟩ := readVarintField_eq_ok.mp htag
    obtain ⟨value, hgranted, htype, rfl, rfl⟩ := readValue_eq_ok.mp hvalue
    obtain ⟨hnumber, hmask⟩ := tag_parts w.value
    have hwire : w.value % 8 = value.wireType.toNat := by
      rw [htype, hmask, UInt32.toNat_ofNat']
      omega
    refine ⟨⟨w, value, hwire⟩, hgranted, ?_, (List.append_assoc ..).symm⟩
    simp only [WireRecord.field, WireRecord.number, hnumber, htype]
  · intro h
    obtain ⟨record, hgranted, rfl, rfl⟩ := h
    obtain ⟨hnumber, hmask⟩ := tag_parts record.tag.value
    have htype : record.value.wireType = (UInt64.ofNat record.tag.value &&& 0x7).toUInt32 := by
      rw [hmask, record.wireType_eq, UInt32.ofNat_toNat]
    refine Decoded.bind_eq_ok.mpr ⟨(UInt64.ofNat record.tag.value, record.value.bytes ++ rest),
      readVarintField_eq_ok.mpr ⟨record.tag, List.append_assoc .., rfl⟩,
      Decoded.bind_eq_ok.mpr ⟨(record.value.data, rest),
        readValue_eq_ok.mpr ⟨record.value, hgranted, htype, rfl, rfl⟩, ?_⟩⟩
    rw [hnumber, ← htype]
    rfl

namespace WireRecord

theorem bytes_ne_nil (record : WireRecord) : record.bytes ≠ [] := by
  intro hnil
  have htag : record.tag.bytes = [] := (List.append_eq_nil_iff.mp hnil).1
  have hdecode := record.tag.decode_eq
  rw [htag] at hdecode
  exact absurd hdecode nofun

theorem granted_iff {memory : Memory} (record : WireRecord) :
    record.Granted memory ↔
      (record.field.wireType = 2 → memory record.field.data.length = true) := by
  obtain ⟨tag, value, hwire⟩ := record
  cases value with
  | varint v => simp [Granted, WireValue.Granted, field, WireValue.wireType]
  | fixed64 data length_eq => simp [Granted, WireValue.Granted, field, WireValue.wireType]
  | delimited len data length_eq =>
      simp [Granted, WireValue.Granted, field, WireValue.wireType, WireValue.data]
  | fixed32 data length_eq => simp [Granted, WireValue.Granted, field, WireValue.wireType]

/-- What a record is and where it ends is settled by its own bytes. -/
theorem eq_of_append {record other : WireRecord} {rest rest' : Bytes}
    (h : record.bytes ++ rest = other.bytes ++ rest') :
    record.field = other.field ∧ record.bytes = other.bytes ∧ rest = rest' := by
  have hall : ∀ record : WireRecord, record.Granted fun _ => true :=
    fun record => record.granted_iff.mpr fun _ => rfl
  have hread : readRecord (fun _ => true) (record.bytes ++ rest) = .ok (record.field, rest) :=
    readRecord_eq_ok.mpr ⟨record, hall record, rfl, rfl⟩
  have hother : readRecord (fun _ => true) (record.bytes ++ rest) = .ok (other.field, rest') :=
    readRecord_eq_ok.mpr ⟨other, hall other, rfl, h⟩
  rw [hread] at hother
  obtain ⟨hfield, rfl⟩ := Prod.mk.inj (Except.ok.inj hother)
  exact ⟨hfield, List.append_cancel_right h, rfl⟩

end WireRecord

/-! ### The record loop -/

theorem parseMessage_append {memory : Memory} {records : List WireRecord}
    (hgranted : ∀ record ∈ records, record.Granted memory) (rest : Bytes) :
    parseMessage memory (messageBytes records ++ rest) =
      parseMessage memory rest >>= fun fields =>
        pure (records.map WireRecord.field ++ fields) := by
  induction records with
  | nil =>
      rw [messageBytes_nil, List.nil_append]
      cases parseMessage memory rest <;> rfl
  | cons record records ih =>
      have hread : readRecord memory (record.bytes ++ (messageBytes records ++ rest)) = .ok _ :=
        readRecord_eq_ok.mpr ⟨record, hgranted record List.mem_cons_self, rfl, rfl⟩
      rw [messageBytes_cons, List.append_assoc, parseMessage_of_record hread,
        ih fun other hmem => hgranted other (List.mem_cons_of_mem _ hmem)]
      cases parseMessage memory rest <;> rfl

theorem parseMessage_messageBytes {memory : Memory} {records : List WireRecord}
    (hgranted : ∀ record ∈ records, record.Granted memory) :
    parseMessage memory (messageBytes records) = .ok (records.map WireRecord.field) := by
  have h := parseMessage_append hgranted []
  rw [List.append_nil, parseMessage_nil] at h
  rw [h]
  exact congrArg Except.ok (List.append_nil _)

/-- What the loop accepts is a list of records. -/
theorem parseMessage_eq_ok {memory : Memory} {buf : Bytes} {fields : List Field} :
    parseMessage memory buf = .ok fields ↔
      ∃ records : List WireRecord, buf = messageBytes records
        ∧ (∀ record ∈ records, record.Granted memory) ∧ fields = records.map WireRecord.field := by
  constructor
  · intro h
    induction fields generalizing buf with
    | nil =>
        by_cases hnil : buf = []
        · exact ⟨[], hnil, by simp, rfl⟩
        · rw [parseMessage_eq memory hnil] at h
          obtain ⟨⟨field, rest⟩, -, hrest⟩ := Decoded.bind_eq_ok.mp h
          obtain ⟨later, -, hpure⟩ := Decoded.bind_eq_ok.mp hrest
          exact absurd (Except.ok.inj hpure) (List.cons_ne_nil _ _)
    | cons field fields ih =>
        have hnil : buf ≠ [] := by
          rintro rfl
          exact absurd h nofun
        rw [parseMessage_eq memory hnil] at h
        obtain ⟨⟨head, rest⟩, hrecord, hrest⟩ := Decoded.bind_eq_ok.mp h
        obtain ⟨later, hlater, hpure⟩ := Decoded.bind_eq_ok.mp hrest
        obtain ⟨rfl, rfl⟩ := List.cons.inj (Except.ok.inj hpure)
        obtain ⟨record, hgranted, rfl, rfl⟩ := readRecord_eq_ok.mp hrecord
        obtain ⟨records, rfl, hall, rfl⟩ := ih hlater
        exact ⟨record :: records, rfl, List.forall_mem_cons.mpr ⟨hgranted, hall⟩, rfl⟩
  · intro h
    obtain ⟨records, rfl, hgranted, rfl⟩ := h
    exact parseMessage_messageBytes hgranted

theorem parseMessage_messageBytes_eq_ok {memory : Memory} {records : List WireRecord}
    {fields : List Field} :
    parseMessage memory (messageBytes records) = .ok fields ↔
      (∀ record ∈ records, record.Granted memory) ∧ fields = records.map WireRecord.field := by
  have hunique : ∀ {records others : List WireRecord}, messageBytes records = messageBytes others →
      records.map WireRecord.field = others.map WireRecord.field := by
    intro records
    induction records with
    | nil =>
        intro others h
        cases others with
        | nil => rfl
        | cons other others => exact absurd (List.append_eq_nil_iff.mp h.symm).1 other.bytes_ne_nil
    | cons record records ih =>
        intro others h
        cases others with
        | nil => exact absurd (List.append_eq_nil_iff.mp h).1 record.bytes_ne_nil
        | cons other others =>
            obtain ⟨hfield, -, hrest⟩ := WireRecord.eq_of_append h
            rw [List.map_cons, List.map_cons, hfield, ih hrest]
  constructor
  · intro h
    obtain ⟨others, hbytes, hgranted, rfl⟩ := parseMessage_eq_ok.mp h
    have hfields := hunique hbytes
    refine ⟨fun record hmem => record.granted_iff.mpr ?_, hfields.symm⟩
    obtain ⟨other, hother, hfield⟩ := List.mem_map.mp (hfields ▸ List.mem_map_of_mem hmem)
    rw [← hfield]
    exact other.granted_iff.mp (hgranted other hother)
  · intro h
    obtain ⟨hgranted, rfl⟩ := h
    exact parseMessage_messageBytes hgranted

theorem messageBytes_prefix {records others : List WireRecord}
    (h : messageBytes others <+: messageBytes records) :
    ∃ k ≤ records.length, messageBytes others = messageBytes (records.take k) := by
  induction others generalizing records with
  | nil => exact ⟨0, Nat.zero_le _, rfl⟩
  | cons other others ih =>
      obtain ⟨rest, hrest⟩ := h
      rw [messageBytes_cons, List.append_assoc] at hrest
      cases records with
      | nil => exact absurd (List.append_eq_nil_iff.mp hrest).1 other.bytes_ne_nil
      | cons record records =>
          obtain ⟨-, hbytes, htail⟩ := WireRecord.eq_of_append hrest
          obtain ⟨k, hk, htake⟩ := ih ⟨rest, htail⟩
          refine ⟨k + 1, Nat.succ_le_succ hk, ?_⟩
          rw [messageBytes_cons, List.take_succ_cons, messageBytes_cons, hbytes, htake]

/-- **The record loop is compositional and detects truncation.** With memory for the declared lengths,
the concatenation of records parses to exactly these records, with the field number modulo `2^32` and a
varint that reads back modulo `2^64`; whatever follows them is parsed as if it stood alone; and a prefix
parses only if it ends where a record ends. -/
theorem parseMessage_compositional {memory : Memory} {records : List WireRecord}
    (hgranted : ∀ record ∈ records, record.Granted memory) :
    parseMessage memory (messageBytes records) = .ok (records.map WireRecord.field)
      ∧ (∀ record ∈ records, record.field.number.toNat = record.number % 2 ^ 32
        ∧ ∀ v, record.value = .varint v →
          (fieldAsVarint record.field).map UInt64.toNat = some (v.value % 2 ^ 64))
      ∧ (∀ rest fields, parseMessage memory (messageBytes records ++ rest) = .ok fields ↔
        ∃ later, parseMessage memory rest = .ok later
          ∧ fields = records.map WireRecord.field ++ later)
      ∧ ∀ cut ≤ (messageBytes records).length,
        (∃ fields, parseMessage memory ((messageBytes records).take cut) = .ok fields) ↔
          ∃ k ≤ records.length, cut = (messageBytes (records.take k)).length := by
  refine ⟨parseMessage_messageBytes hgranted, fun record hmem => ⟨?_, fun v hv => ?_⟩,
    fun rest fields => ?_, fun cut hcut => ⟨fun hparse => ?_, fun hboundary => ?_⟩⟩
  · simp only [WireRecord.field, UInt32.toNat_ofNat']
  · have hfield : record.field = ⟨record.field.number, 0, writeVarint (UInt64.ofNat v.value)⟩ := by
      simp only [WireRecord.field, hv, WireValue.wireType, WireValue.data]
    rw [hfield, fieldAsVarint_varint, Option.map_some, UInt64.toNat_ofNat']
  · rw [parseMessage_append hgranted, Decoded.bind_eq_ok]
    refine exists_congr fun later => and_congr_right fun _ => ?_
    exact ⟨fun hpure => (Except.ok.inj hpure).symm, fun heq => congrArg Except.ok heq.symm⟩
  · obtain ⟨fields, hfields⟩ := hparse
    obtain ⟨others, hothers, -, -⟩ := parseMessage_eq_ok.mp hfields
    obtain ⟨k, hk, htake⟩ := messageBytes_prefix (hothers ▸ List.take_prefix cut _)
    refine ⟨k, hk, ?_⟩
    rw [← htake, ← hothers, List.length_take, Nat.min_eq_left hcut]
  · obtain ⟨k, hk, rfl⟩ := hboundary
    have hsplit : messageBytes records =
        messageBytes (records.take k) ++ messageBytes (records.drop k) := by
      rw [← messageBytes_append, List.take_append_drop]
    refine ⟨(records.take k).map WireRecord.field, ?_⟩
    rw [hsplit, List.take_left]
    exact parseMessage_messageBytes fun record hmem =>
      hgranted record (List.mem_of_mem_take hmem)

/-- The number 22 in three bytes, and a field of one byte. -/
def twoRecords : List WireRecord :=
  [⟨⟨[0x08], 8, by decide, by decide⟩, .varint ⟨[0x96, 0x80, 0x00], 22, by decide, by decide⟩, rfl⟩,
    ⟨⟨[0x12], 18, by decide, by decide⟩, .delimited ⟨[1], 1, by decide, by decide⟩ [0x61] rfl, rfl⟩]

theorem parseMessage_compositional_twoRecords :
    parseMessage (fun _ => true) [0x08, 0x96, 0x80, 0x00, 0x12, 0x01, 0x61] =
      .ok [⟨1, 0, [0x16]⟩, ⟨2, 2, [0x61]⟩] := by
  have hgranted : ∀ record ∈ twoRecords, record.Granted fun _ => true := by
    simp [twoRecords, WireRecord.Granted, WireValue.Granted]
  exact (parseMessage_compositional hgranted).1

end EternalTerminal
