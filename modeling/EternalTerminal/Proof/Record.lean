import EternalTerminal.Proof.Varint

/-!
# Records on the wire

What the writers of one field write is one record, and `parse_message` takes it off the front of its
input. The loop never runs out of turns, because every record takes at least one byte.
-/

namespace EternalTerminal

/-! ### Tags -/

theorem toNat_tag (field : UInt32) {wireType : UInt32} (hwire : wireType.toNat < 8) :
    ((field.toUInt64 <<< 3) ||| wireType.toUInt64).toNat = field.toNat * 8 + wireType.toNat := by
  have hfield : field.toNat < 2 ^ 32 := field.toNat_lt
  have hfits : field.toNat <<< 3 % 2 ^ 64 = field.toNat <<< 3 := by
    rw [Nat.shiftLeft_eq]
    omega
  have hor : field.toNat <<< 3 + wireType.toNat = field.toNat <<< 3 ||| wireType.toNat :=
    Nat.shiftLeft_add_eq_or_of_lt hwire field.toNat
  rw [UInt64.toNat_or, UInt64.toNat_shiftLeft, UInt32.toNat_toUInt64, UInt32.toNat_toUInt64]
  simp only [UInt64.reduceToNat, Nat.reduceMod]
  rw [hfits, ← hor, Nat.shiftLeft_eq]

theorem tag_split (field : UInt32) {wireType : UInt32} (hwire : wireType.toNat < 8) :
    (((field.toUInt64 <<< 3) ||| wireType.toUInt64) >>> 3).toUInt32 = field
      ∧ (((field.toUInt64 <<< 3) ||| wireType.toUInt64) &&& 0x7).toUInt32 = wireType := by
  have htag := toNat_tag field hwire
  have hfield : field.toNat < 2 ^ 32 := field.toNat_lt
  constructor
  · apply UInt32.toNat.inj
    rw [UInt64.toNat_toUInt32, UInt64.toNat_shiftRight, htag]
    simp only [UInt64.reduceToNat, Nat.reduceMod, Nat.shiftRight_eq_div_pow]
    omega
  · have hmask : ∀ n : Nat, n &&& 7 = n % 8 := fun n => Nat.and_two_pow_sub_one_eq_mod n 3
    apply UInt32.toNat.inj
    rw [UInt64.toNat_toUInt32, UInt64.toNat_and, htag]
    simp only [UInt64.reduceToNat, hmask]
    omega

/-! ### One record -/

theorem readVarintField_writeVarint (v : UInt64) (rest : Bytes) :
    readVarintField (writeVarint v ++ rest) = .ok (v, rest) := by
  rw [readVarintField, readVarint_writeVarint]
  rfl

theorem readRecord_tag (memory : Memory) {field wireType : UInt32} (hwire : wireType.toNat < 8)
    {value data rest : Bytes} (hvalue : readValue memory wireType value = .ok (data, rest)) :
    readRecord memory (writeTag field wireType ++ value) = .ok (⟨field, wireType, data⟩, rest) := by
  obtain ⟨hnumber, htype⟩ := tag_split field hwire
  simp only [readRecord, writeTag, readVarintField_writeVarint, bind, Except.bind, hnumber, htype,
    hvalue, pure, Except.pure]

theorem readRecord_varint (memory : Memory) (field : UInt32) (v : UInt64) (rest : Bytes) :
    readRecord memory (writeTag field 0 ++ writeVarint v ++ rest) =
      .ok (⟨field, 0, writeVarint v⟩, rest) := by
  rw [List.append_assoc]
  apply readRecord_tag memory (by decide)
  simp only [readValue, readVarintField_writeVarint, bind, Except.bind, pure, Except.pure]

theorem readRecord_writeInt32 (memory : Memory) (field : UInt32) (v : Int32) (rest : Bytes) :
    readRecord memory (writeInt32 field v ++ rest) =
      .ok (⟨field, 0, writeVarint v.toInt64.toUInt64⟩, rest) := readRecord_varint memory field _ rest

theorem fieldAsVarint_varint (field : UInt32) (v : UInt64) :
    fieldAsVarint ⟨field, 0, writeVarint v⟩ = some v := by
  have hread := readVarint_writeVarint v []
  rw [List.append_nil] at hread
  simp only [fieldAsVarint, if_true, hread]
  rfl

/-- Sign extension and truncation cancel. -/
@[simp] theorem asI32_toUInt64 (v : Int32) : asI32 v.toInt64.toUInt64 = v := by
  apply Int32.toBitVec.inj
  ext i hi
  simp [asI32, BitVec.getLsbD_signExtend, hi]
  omega

/-! ### The record loop -/

theorem Decoded.bind_eq_ok {α β : Type} {x : Decoded α} {f : α → Decoded β} {b : β} :
    x >>= f = .ok b ↔ ∃ a, x = .ok a ∧ f a = .ok b := by
  cases x <;> simp [bind, Except.bind]

theorem Decoded.bind_eq_error {α β : Type} {x : Decoded α} {f : α → Decoded β} {e : Fault} :
    x >>= f = .error e ↔ x = .error e ∨ ∃ a, x = .ok a ∧ f a = .error e := by
  cases x <;> simp [bind, Except.bind]

theorem readVarintField_length {buf rest : Bytes} {v : UInt64}
    (h : readVarintField buf = .ok (v, rest)) : rest.length < buf.length := by
  rw [readVarintField] at h
  rcases hread : readVarint buf with e | ⟨v', rest'⟩
  · rw [hread] at h
    simp [Except.mapError] at h
  · rw [hread] at h
    simp only [Except.mapError, Except.ok.injEq, Prod.mk.injEq] at h
    obtain ⟨rfl, rfl⟩ := h
    obtain ⟨n, hdecode, -⟩ := readVarint_eq_ok.mp hread
    exact (Base128.decode_rest hdecode).2

theorem readExact_length {n : Nat} {buf data rest : Bytes}
    (h : readExact n buf = .ok (data, rest)) : rest.length ≤ buf.length := by
  simp only [readExact] at h
  split_ifs at h
  simp only [Except.ok.injEq, Prod.mk.injEq] at h
  obtain ⟨-, rfl⟩ := h
  rw [List.length_drop]
  omega

theorem readValue_length {memory : Memory} {wireType : UInt32} {buf data rest : Bytes}
    (h : readValue memory wireType buf = .ok (data, rest)) : rest.length ≤ buf.length := by
  unfold readValue at h
  split at h
  · obtain ⟨⟨v, after⟩, hvarint, hpure⟩ := Decoded.bind_eq_ok.mp h
    simp only [pure, Except.pure, Except.ok.injEq, Prod.mk.injEq] at hpure
    obtain ⟨-, rfl⟩ := hpure
    exact (readVarintField_length hvarint).le
  · exact readExact_length h
  · obtain ⟨⟨len, after⟩, hvarint, hrest⟩ := Decoded.bind_eq_ok.mp h
    obtain ⟨-, -, hexact⟩ := Decoded.bind_eq_ok.mp hrest
    exact (readExact_length hexact).trans (readVarintField_length hvarint).le
  · exact readExact_length h
  · simp [throw, throwThe, MonadExceptOf.throw] at h

theorem readRecord_length {memory : Memory} {buf rest : Bytes} {field : Field}
    (h : readRecord memory buf = .ok (field, rest)) : rest.length < buf.length := by
  obtain ⟨⟨tag, after⟩, htag, hrest⟩ := Decoded.bind_eq_ok.mp h
  obtain ⟨⟨data, last⟩, hvalue, hpure⟩ := Decoded.bind_eq_ok.mp hrest
  simp only [pure, Except.pure, Except.ok.injEq, Prod.mk.injEq] at hpure
  obtain ⟨-, rfl⟩ := hpure
  exact (readValue_length hvalue).trans_lt (readVarintField_length htag)

theorem parseRecords_eq (memory : Memory) {turns : Nat} {buf : Bytes} (h : buf.length ≤ turns) :
    parseRecords memory turns buf = parseMessage memory buf := by
  have hgeneral : ∀ size (buf : Bytes), buf.length ≤ size → ∀ turns turns', buf.length ≤ turns →
      buf.length ≤ turns' → parseRecords memory turns buf = parseRecords memory turns' buf := by
    intro size
    induction size with
    | zero =>
        intro buf hsize turns turns' _ _
        obtain rfl := List.length_eq_zero_iff.mp (Nat.le_zero.mp hsize)
        cases turns <;> cases turns' <;> rfl
    | succ size ih =>
        intro buf hsize turns turns' hturns hturns'
        cases buf with
        | nil => cases turns <;> cases turns' <;> rfl
        | cons b buf =>
            simp only [List.length_cons] at hsize hturns hturns'
            obtain ⟨turns, rfl⟩ := Nat.exists_eq_succ_of_ne_zero (show turns ≠ 0 by omega)
            obtain ⟨turns', rfl⟩ := Nat.exists_eq_succ_of_ne_zero (show turns' ≠ 0 by omega)
            simp only [parseRecords]
            rcases hrecord : readRecord memory (b :: buf) with e | ⟨field, rest⟩
            · rfl
            · have hrest := readRecord_length hrecord
              simp only [List.length_cons] at hrest
              simp only [bind, Except.bind]
              rw [ih rest (by omega) turns turns' (by omega) (by omega)]
  exact hgeneral buf.length buf le_rfl _ _ h le_rfl

@[simp] theorem parseMessage_nil (memory : Memory) : parseMessage memory [] = .ok [] := rfl

/-- One turn of the loop. -/
theorem parseMessage_eq (memory : Memory) {buf : Bytes} (h : buf ≠ []) :
    parseMessage memory buf = readRecord memory buf >>= fun (field, rest) =>
      parseMessage memory rest >>= fun fields => pure (field :: fields) := by
  cases buf with
  | nil => exact absurd rfl h
  | cons b buf =>
      rw [parseMessage, List.length_cons, parseRecords]
      rcases hrecord : readRecord memory (b :: buf) with e | ⟨field, rest⟩
      · rfl
      · have hrest := readRecord_length hrecord
        simp only [List.length_cons] at hrest
        simp only [bind, Except.bind]
        rw [parseRecords_eq memory (by omega)]

theorem parseMessage_of_record {memory : Memory} {buf rest : Bytes} {field : Field}
    (h : readRecord memory buf = .ok (field, rest)) :
    parseMessage memory buf = parseMessage memory rest >>= fun fields => pure (field :: fields) := by
  have hne : buf ≠ [] := by
    rintro rfl
    exact absurd (readRecord_length h) (by simp)
  rw [parseMessage_eq memory hne, h]
  rfl

end EternalTerminal
