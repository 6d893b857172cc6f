import EternalTerminal.Crypto
import Mathlib.Logic.Function.Iterate

/-!
# The counter nonce

`increment_nonce` is a ripple carry over 24 bytes. As a number it adds one modulo `2^192`, so the
`k`th nonce of a stream is its start plus `k`. Below `2^184` steps the carry never reaches the last
byte, which tells the two directions apart.
-/

namespace EternalTerminal

theorem leValue_incrementBytes (bytes : Bytes) :
    leValue (incrementBytes bytes) = (leValue bytes + 1) % 256 ^ bytes.length := by
  induction bytes with
  | nil => simp [incrementBytes]
  | cons b rest ih =>
      have hrest : leValue rest < 256 ^ rest.length := leValue_lt rest
      have hb : b.toNat < 256 := b.toNat_lt
      have hadd : (b + 1).toNat = (b.toNat + 1) % 256 := by simp [UInt8.toNat_add]
      have hpow : 256 ^ (b :: rest).length = 256 * 256 ^ rest.length := by
        rw [List.length_cons, Nat.pow_succ']
      simp only [incrementBytes]
      by_cases hwrap : b + 1 = 0
      · -- the byte was 255: it becomes zero and the carry goes on
        have hfull : b.toNat = 255 := by
          have hzero : (b + 1).toNat = 0 := by rw [hwrap]; rfl
          omega
        rw [if_neg (by simp [hwrap]), hpow]
        simp only [leValue_cons, hwrap, ih, hfull]
        rw [show 255 + 256 * leValue rest + 1 = 256 * (leValue rest + 1) by ring,
          Nat.mul_mod_mul_left]
        simp
      · have hlt : b.toNat + 1 < 256 := by
          by_contra hge
          apply hwrap
          apply UInt8.toNat.inj
          rw [hadd, show b.toNat + 1 = 256 by omega]
          rfl
        rw [if_pos hwrap, hpow]
        simp only [leValue_cons, hadd, Nat.mod_eq_of_lt hlt]
        rw [Nat.mod_eq_of_lt]
        · ring
        · omega

namespace Nonce

/-- The nonce `k` increments later. -/
def advance (nonce : Nonce) (k : Nat) : Nonce := Nonce.increment^[k] nonce

/-- The little-endian number a nonce stands for. -/
def value (nonce : Nonce) : Nat := leValue nonce.bytes

@[simp] theorem advance_zero (nonce : Nonce) : nonce.advance 0 = nonce := rfl

theorem advance_succ (nonce : Nonce) (k : Nat) :
    nonce.advance (k + 1) = (nonce.advance k).increment := by
  rw [advance, Function.iterate_succ_apply', advance]

theorem value_increment (nonce : Nonce) : nonce.increment.value = (nonce.value + 1) % 2 ^ 192 := by
  rw [value, increment, leValue_incrementBytes, nonce.length_bytes, value]
  norm_num [nonceBytes]

theorem value_lt (nonce : Nonce) : nonce.value < 2 ^ 192 := by
  have h := leValue_lt nonce.bytes
  rw [nonce.length_bytes] at h
  exact h.trans_eq (by norm_num [nonceBytes])

theorem value_advance (nonce : Nonce) (k : Nat) :
    (nonce.advance k).value = (nonce.value + k) % 2 ^ 192 := by
  induction k with
  | zero => rw [advance_zero, Nat.add_zero, Nat.mod_eq_of_lt nonce.value_lt]
  | succ k ih => rw [advance_succ, value_increment, ih, Nat.mod_add_mod, Nat.add_assoc]

theorem increment_ne (nonce : Nonce) : nonce.increment ≠ nonce := by
  intro h
  have hvalue := nonce.value_increment
  have hlt := nonce.value_lt
  rw [h] at hvalue
  omega

/-- Below `2^192` increments the number of increments can be read off the nonce. -/
theorem advance_inj {nonce : Nonce} {i j : Nat} (hi : i < 2 ^ 192) (hj : j < 2 ^ 192) :
    nonce.advance i = nonce.advance j ↔ i = j := by
  refine ⟨fun h => ?_, fun h => by rw [h]⟩
  have hvalue := congrArg value h
  rw [value_advance, value_advance] at hvalue
  have hlt := nonce.value_lt
  omega

theorem value_start (nonceMsb : UInt8) : (start nonceMsb).value = nonceMsb.toNat * 2 ^ 184 := by
  have hzeros : leValue (List.replicate (nonceBytes - 1) 0) = 0 := by
    rw [← leBytes_zero, leValue_leBytes, Nat.zero_mod]
  simp only [value, start, leValue_append, hzeros, List.length_replicate, leValue_cons, leValue_nil]
  norm_num [nonceBytes]
  ring

/-- The `k`th nonce of a direction is `k` in little-endian, with the direction byte untouched. -/
theorem bytes_advance_start (nonceMsb : UInt8) {k : Nat} (hk : k < 2 ^ 184) :
    ((start nonceMsb).advance k).bytes = leBytes (nonceBytes - 1) k ++ [nonceMsb] := by
  have hmsb : nonceMsb.toNat < 256 := nonceMsb.toNat_lt
  have hlength : ((start nonceMsb).advance k).bytes.length =
      (leBytes (nonceBytes - 1) k ++ [nonceMsb]).length := by
    rw [Nonce.length_bytes]
    simp [nonceBytes]
  have hpow : 256 ^ (nonceBytes - 1) = 2 ^ 184 := by norm_num [nonceBytes]
  apply leValue_inj hlength
  change ((start nonceMsb).advance k).value = _
  rw [value_advance, value_start, leValue_append, leValue_leBytes, length_leBytes, hpow]
  simp only [leValue_cons, leValue_nil]
  omega

theorem advance_start_ne {left right : UInt8} (hne : left ≠ right) {i j : Nat}
    (hi : i < 2 ^ 184) (hj : j < 2 ^ 184) : (start left).advance i ≠ (start right).advance j := by
  intro h
  have hbytes := congrArg bytes h
  rw [bytes_advance_start left hi, bytes_advance_start right hj] at hbytes
  have hlast := (List.append_inj hbytes (by simp)).2
  exact hne (by simpa using hlast)

end Nonce

end EternalTerminal
