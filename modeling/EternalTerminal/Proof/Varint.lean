import EternalTerminal.Library.Base128
import EternalTerminal.Proto.Wire
import Mathlib.Tactic.NormNum

/-!
# Varints are base-128 numbers

`write_varint` writes the shortest form of its value. `read_varint` reads any form of at most ten
bytes and keeps its value modulo `2^64`, so it inverts the writer.
-/

namespace EternalTerminal

/-! ### Single bytes of a word -/

theorem toUInt8_eq_ofNat (v : UInt64) : v.toUInt8 = UInt8.ofNat v.toNat := by
  apply UInt8.toNat.inj
  rw [UInt64.toNat_toUInt8, UInt8.toNat_ofNat']

theorem toUInt8_or_high_bit (v : UInt64) :
    v.toUInt8 ||| 0x80 = UInt8.ofNat (v.toNat % 128 + 128) := by
  apply UInt8.toNat.inj
  have hbyte : v.toUInt8.toNat = v.toNat % 256 := UInt64.toNat_toUInt8 v
  have hbits : ∀ n : Fin 256, n.val ||| 128 = n.val % 128 + 128 := by
    decide +kernel
  have hlt : v.toNat % 256 < 256 := Nat.mod_lt _ (by decide)
  rw [UInt8.toNat_or, hbyte, UInt8.toNat_ofNat']
  have := hbits ⟨v.toNat % 256, hlt⟩
  simp only [UInt8.reduceToNat] at this ⊢
  omega

theorem toNat_shiftRight_seven (v : UInt64) : (v >>> 7).toNat = v.toNat / 128 := by
  rw [UInt64.toNat_shiftRight]
  simp [Nat.shiftRight_eq_div_pow]

theorem writeVarintLoop_eq {groups : Nat} {v : UInt64} (h : v.toNat < 128 ^ (groups + 1)) :
    writeVarintLoop groups v = Base128.encode v.toNat := by
  induction groups generalizing v with
  | zero =>
      have hlt : v.toNat < 128 := by omega
      rw [writeVarintLoop, Base128.encode_of_lt hlt, toUInt8_eq_ofNat]
  | succ groups ih =>
      have hge : v ≥ 0x80 ↔ 128 ≤ v.toNat := UInt64.le_iff_toNat_le
      rw [writeVarintLoop]
      split_ifs with hlong
      · have hshift : (v >>> 7).toNat < 128 ^ (groups + 1) := by
          rw [toNat_shiftRight_seven, Nat.div_lt_iff_lt_mul (by decide), ← Nat.pow_succ]
          exact h
        rw [ih hshift, Base128.encode_of_ge (hge.mp hlong), toNat_shiftRight_seven,
          toUInt8_or_high_bit]
      · have hlt : v.toNat < 128 := by
          by_contra hnot
          exact hlong (hge.mpr (by omega))
        rw [Base128.encode_of_lt hlt, toUInt8_eq_ofNat]

theorem writeVarint_eq (v : UInt64) : writeVarint v = Base128.encode v.toNat := by
  have hlt := v.toNat_lt
  exact writeVarintLoop_eq (hlt.trans (by norm_num))

theorem length_writeVarint_le (v : UInt64) : (writeVarint v).length ≤ 10 := by
  have hlt := v.toNat_lt
  rw [writeVarint_eq]
  exact Base128.length_encode_le (by decide) (hlt.trans (by norm_num))

/-! ### Reading -/

/-- One group is ored in above the ones that are there: that adds it, and cuts off what a `u64` does
not hold. -/
theorem toNat_or_group {result : UInt64} (b : UInt8) {shift : Nat} (hshift : shift < 64)
    (hlow : result.toNat < 2 ^ shift) :
    (result ||| ((b &&& 0x7f).toUInt64 <<< shift.toUInt64)).toNat =
      (result.toNat + 2 ^ shift * (b.toNat % 128)) % 2 ^ 64 := by
  have hamount : shift.toUInt64.toNat % 64 = shift := by
    rw [Nat.toUInt64_eq, UInt64.toNat_ofNat']
    omega
  have hmask : (b &&& 0x7f).toUInt64.toNat = b.toNat % 128 := by
    rw [UInt8.toNat_toUInt64, UInt8.toNat_and]
    exact Nat.and_two_pow_sub_one_eq_mod b.toNat 7
  have hsplit : (2 : Nat) ^ 64 = 2 ^ (64 - shift) * 2 ^ shift := by
    rw [← Nat.pow_add]
    congr 1
    omega
  have hgroup : b.toNat % 128 * 2 ^ shift % 2 ^ 64 =
      b.toNat % 128 % 2 ^ (64 - shift) * 2 ^ shift := by
    rw [hsplit, Nat.mul_mod_mul_right]
  rw [UInt64.toNat_or, UInt64.toNat_shiftLeft, hamount, hmask, Nat.shiftLeft_eq, hgroup, Nat.or_comm,
    ← Nat.shiftLeft_eq, ← Nat.shiftLeft_add_eq_or_of_lt hlow, Nat.shiftLeft_eq]
  have hfits : b.toNat % 128 % 2 ^ (64 - shift) * 2 ^ shift + result.toNat < 2 ^ 64 := by
    have hgroups : b.toNat % 128 % 2 ^ (64 - shift) < 2 ^ (64 - shift) :=
      Nat.mod_lt _ (Nat.two_pow_pos _)
    have hle := Nat.mul_le_mul_right (2 ^ shift) hgroups
    rw [hsplit]
    rw [Nat.succ_mul] at hle
    omega
  rw [← Nat.mod_eq_of_lt hfits, ← hgroup, Nat.mod_add_mod, Nat.add_comm, Nat.mul_comm]

/-- The loop of `read_varint` after `groups` turns: it takes at most ten bytes in all. -/
theorem readVarintFrom_eq_ok {groups : Nat} {result v : UInt64} {buf rest : Bytes}
    (hlow : result.toNat < 2 ^ (7 * groups)) :
    readVarintFrom (7 * groups) result buf = .ok (v, rest) ↔
      ∃ n, Base128.decode buf = some (n, rest) ∧ groups + buf.length ≤ 10 + rest.length
        ∧ v.toNat = (result.toNat + 2 ^ (7 * groups) * n) % 2 ^ 64 := by
  induction buf generalizing groups result with
  | nil => simp [readVarintFrom, Base128.decode]
  | cons b buf ih =>
      by_cases hshift : 7 * groups < 64
      · have hor := toNat_or_group b hshift hlow
        have hb : b.toNat < 256 := b.toNat_lt
        have hlast : b &&& 0x80 = 0 ↔ b.toNat < 128 := by
          have hall : ∀ n : Fin 256, UInt8.ofNat n.val &&& 0x80 = 0 ↔ n.val < 128 := by
            decide +kernel
          simpa using hall ⟨b.toNat, hb⟩
        simp only [readVarintFrom, hshift, if_true, Base128.decode, hlast]
        split_ifs with hend
        · have hbits : b.toNat % 128 = b.toNat := Nat.mod_eq_of_lt hend
          simp only [Except.ok.injEq, Prod.mk.injEq, Option.some.injEq]
          constructor
          · intro hgiven
            obtain ⟨rfl, rfl⟩ := hgiven
            refine ⟨b.toNat, ⟨rfl, rfl⟩, by rw [List.length_cons]; omega, ?_⟩
            rw [hor, hbits]
          · intro hgiven
            obtain ⟨n, ⟨rfl, rfl⟩, -, hv⟩ := hgiven
            exact ⟨UInt64.toNat.inj (by rw [hv, hor, hbits]), rfl⟩
        · have hnext : (result ||| ((b &&& 0x7f).toUInt64 <<< (7 * groups).toUInt64)).toNat <
              2 ^ (7 * (groups + 1)) := by
            have hpow : 2 ^ (7 * (groups + 1)) = 2 ^ (7 * groups) * 128 := by
              rw [Nat.mul_add, Nat.pow_add]
            have hgroup : 2 ^ (7 * groups) * (b.toNat % 128) ≤ 2 ^ (7 * groups) * 127 :=
              Nat.mul_le_mul_left _ (by omega)
            rw [hor]
            apply (Nat.mod_le _ _).trans_lt
            rw [hpow]
            omega
          rw [show 7 * groups + 7 = 7 * (groups + 1) by ring, ih hnext]
          simp only [Option.map_eq_some_iff, Prod.exists, Prod.mk.injEq, List.length_cons]
          have hvalue : ∀ n, (result.toNat + 2 ^ (7 * groups) * (b.toNat - 128 + 128 * n)) % 2 ^ 64 =
              ((result ||| ((b &&& 0x7f).toUInt64 <<< (7 * groups).toUInt64)).toNat
                + 2 ^ (7 * (groups + 1)) * n) % 2 ^ 64 := by
            intro n
            have hbits : b.toNat - 128 = b.toNat % 128 := by omega
            have hsum : result.toNat + 2 ^ (7 * groups) * (b.toNat % 128 + 128 * n) =
                result.toNat + 2 ^ (7 * groups) * (b.toNat % 128) + 2 ^ (7 * (groups + 1)) * n := by
              rw [Nat.mul_add 7, Nat.pow_add]
              ring
            rw [hor, Nat.mod_add_mod, hbits, hsum]
          constructor
          · intro hgiven
            obtain ⟨n, hdecode, hlength, hv⟩ := hgiven
            exact ⟨_, ⟨n, rest, hdecode, rfl, rfl⟩, by omega, by rw [hv, hvalue]⟩
          · intro hgiven
            obtain ⟨_, ⟨n, _, hdecode, rfl, rfl⟩, hlength, hv⟩ := hgiven
            exact ⟨n, hdecode, by omega, by rw [hv, hvalue]⟩
      · -- the eleventh byte
        simp only [readVarintFrom, hshift, if_false, reduceCtorEq, false_iff, not_exists, not_and]
        intro n hdecode hlength
        have hrest := (Base128.decode_rest hdecode).2
        omega

/-- `read_varint` accepts the base-128 numbers of at most ten bytes, modulo `2^64`. -/
theorem readVarint_eq_ok {buf rest : Bytes} {v : UInt64} :
    readVarint buf = .ok (v, rest) ↔
      ∃ n, Base128.decode buf = some (n, rest) ∧ buf.length ≤ 10 + rest.length
        ∧ v.toNat = n % 2 ^ 64 := by
  have hstart : (0 : UInt64).toNat < 2 ^ (7 * 0) := by decide
  have h : readVarintFrom (7 * 0) 0 buf = .ok (v, rest) ↔ _ := readVarintFrom_eq_ok hstart
  simpa [readVarint] using h

theorem readVarint_writeVarint (v : UInt64) (rest : Bytes) :
    readVarint (writeVarint v ++ rest) = .ok (v, rest) := by
  have hlength := length_writeVarint_le v
  rw [writeVarint_eq] at hlength ⊢
  refine readVarint_eq_ok.mpr ⟨v.toNat, Base128.decode_encode _ _, ?_, ?_⟩
  · rw [List.length_append]
    omega
  · rw [Nat.mod_eq_of_lt v.toNat_lt]

end EternalTerminal
