import EternalTerminal.Connection.Handshake
import EternalTerminal.Proof.Record

/-!
# Messages read back

`read_proto` takes exactly what `write_proto` wrote off a stream, so a message is read back if its
encoding decodes to it.
-/

namespace EternalTerminal

/-- Memory for a message and no more. -/
def messageAllocator : Allocator where
  grants len := len ≤ maxProtoBytes
  grants_message len h := by simp [h]
  capacity len h := by
    have hmax : maxProtoBytes < isizeMax := by norm_num [maxProtoBytes, isizeMax]
    simp only [decide_eq_false_iff_not]
    omega

theorem i64FromLeBytes_leBytes {n : Nat} (h : n < 2 ^ 63) : i64FromLeBytes (leBytes 8 n) = n := by
  have hvalue : leValue (leBytes 8 n) = n := leValue_leBytes_of_lt (h.trans (by norm_num))
  rw [i64FromLeBytes, hvalue, if_pos h]

theorem readProto_eq {α : Type} [ProtoMessage α] (alloc : Allocator) {payload : Bytes}
    (hsize : payload.length ≤ maxProtoBytes) (rest : Bytes) :
    readProto α alloc.grants (leBytes 8 payload.length ++ payload ++ rest) =
      match ProtoMessage.decode alloc.grants payload with
      | .ok msg => .ok (msg, rest)
      | .error (.err e) => .error (.proto e)
      | .error .crash => .error .crash := by
  have hlength : ¬ (leBytes 8 payload.length ++ payload ++ rest).length < 8 := by
    simp only [List.length_append, length_leBytes]
    omega
  have hheader : (leBytes 8 payload.length ++ payload ++ rest).take 8 = leBytes 8 payload.length := by
    rw [List.append_assoc]
    exact List.take_left' (length_leBytes _ _)
  have hbody : (leBytes 8 payload.length ++ payload ++ rest).drop 8 = payload ++ rest := by
    rw [List.append_assoc]
    exact List.drop_left' (length_leBytes _ _)
  have hvalue : i64FromLeBytes (leBytes 8 payload.length) = payload.length :=
    i64FromLeBytes_leBytes (hsize.trans_lt (by norm_num [maxProtoBytes]))
  have hrange : ¬ ¬ ((0 : Int) ≤ payload.length ∧ (payload.length : Int) ≤ maxProtoBytes) := by
    omega
  have hgranted := alloc.grants_message _ hsize
  have henough : ¬ (payload ++ rest).length < payload.length := by
    simp
  unfold readProto
  rcases hdecode : ProtoMessage.decode alloc.grants payload with (e | _) | msg <;>
    simp only [hlength, hheader, hbody, hvalue, hrange, Int.toNat_natCast, hgranted, henough,
      List.take_left, List.drop_left, Bool.not_true, Bool.false_eq_true, if_false, hdecode]

theorem readProto_writeProto {α : Type} [ProtoMessage α] {msg decoded : α} {alloc : Allocator}
    (hsize : (ProtoMessage.encode msg).length ≤ maxProtoBytes)
    (hdecode : ProtoMessage.decode alloc.grants (ProtoMessage.encode msg) = .ok decoded)
    (rest : Bytes) :
    readProto α alloc.grants (writeProto msg ++ rest) = .ok (decoded, rest) := by
  rw [writeProto, readProto_eq alloc hsize, hdecode]

/-- A length header that `read_proto` accepts is the length of the payload behind it. -/
theorem leValue_of_i64FromLeBytes {header : Bytes} (hlength : header.length = 8) {n : Nat}
    (h : i64FromLeBytes header = n) : header = leBytes 8 n := by
  have hlt : leValue header < 2 ^ 64 := by
    have hbound := leValue_lt header
    rw [hlength] at hbound
    exact hbound.trans_eq (by norm_num)
  have hvalue : leValue header = n := by
    unfold i64FromLeBytes at h
    split_ifs at h <;> omega
  rw [← hvalue, ← hlength, leBytes_leValue]

/-! ### The sequence header -/

theorem SequenceHeader.length_encode_le (msg : SequenceHeader) :
    (SequenceHeader.encode msg).length ≤ maxProtoBytes := by
  obtain ⟨_ | v⟩ := msg
  · simp [encode, writeOption]
  · have htag := length_writeVarint_le (((1 : UInt32).toUInt64 <<< 3) ||| (0 : UInt32).toUInt64)
    have hvalue := length_writeVarint_le v.toInt64.toUInt64
    simp only [encode, writeOption, writeInt32, writeTag, List.length_append]
    have hmax : 20 ≤ maxProtoBytes := by norm_num [maxProtoBytes]
    omega

theorem SequenceHeader.decode_encode (memory : Memory) (msg : SequenceHeader) :
    ProtoMessage.decode memory (SequenceHeader.encode msg) = .ok msg := by
  obtain ⟨_ | v⟩ := msg
  · rfl
  · have hrecord := readRecord_writeInt32 memory 1 v []
    rw [List.append_nil] at hrecord
    change decodeFields memory {} set (writeInt32 1 v) = _
    simp only [decodeFields, parseMessage_of_record hrecord, parseMessage_nil, bind, Except.bind,
      pure, Except.pure, List.foldl_cons, List.foldl_nil, set, fieldAsVarint_varint, Option.map_some,
      asI32_toUInt64, if_true]

theorem SequenceHeader.readProto_writeProto (alloc : Allocator) (msg : SequenceHeader)
    (rest : Bytes) : readProto SequenceHeader alloc.grants (writeProto msg ++ rest) = .ok (msg, rest) :=
  EternalTerminal.readProto_writeProto (length_encode_le msg) (decode_encode alloc.grants msg) rest

end EternalTerminal
