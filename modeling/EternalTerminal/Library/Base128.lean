import Mathlib.Data.List.Basic
import Mathlib.Data.Nat.Basic
import Mathlib.Tactic.Ring

/-!
# Base-128 numbers

A number as bytes of seven bits each, lowest first, with the high bit set on every byte but the last.
The length of such a byte string is not bounded here and a reader may be given an overlong one; how a
machine word cuts the value off is the business of whoever reads it into one.
-/

namespace Base128

/-- The shortest form of a number. -/
def encode (n : Nat) : List UInt8 :=
  if n < 128 then [UInt8.ofNat n] else UInt8.ofNat (n % 128 + 128) :: encode (n / 128)
termination_by n

/-- The number at the front of a byte string and the bytes after it, unless the string ends first. -/
def decode : List UInt8 → Option (Nat × List UInt8)
  | [] => none
  | b :: rest =>
    if b.toNat < 128 then some (b.toNat, rest)
    else (decode rest).map fun (n, after) => (b.toNat - 128 + 128 * n, after)

theorem encode_of_lt {n : Nat} (h : n < 128) : encode n = [UInt8.ofNat n] := by
  rw [encode, if_pos h]

theorem encode_of_ge {n : Nat} (h : 128 ≤ n) :
    encode n = UInt8.ofNat (n % 128 + 128) :: encode (n / 128) := by
  rw [encode, if_neg (by omega)]

theorem length_encode_le {n k : Nat} (hk : 0 < k) (h : n < 128 ^ k) : (encode n).length ≤ k := by
  induction k generalizing n with
  | zero => omega
  | succ k ih =>
      rcases Nat.lt_or_ge n 128 with hlt | hge
      · rw [encode_of_lt hlt]
        simp
      · have hpos : 0 < k := by
          by_contra hzero
          obtain rfl : k = 0 := by omega
          omega
        have hdiv : n / 128 < 128 ^ k := by
          rw [Nat.div_lt_iff_lt_mul (by decide), ← Nat.pow_succ]
          exact h
        have hrest := ih hpos hdiv
        rw [encode_of_ge hge, List.length_cons]
        omega

theorem decode_encode (n : Nat) (rest : List UInt8) :
    decode (encode n ++ rest) = some (n, rest) := by
  induction n using Nat.strongRecOn with
  | ind n ih =>
      rcases Nat.lt_or_ge n 128 with hlt | hge
      · have hbyte : (UInt8.ofNat n).toNat = n := by
          rw [UInt8.toNat_ofNat']
          omega
        rw [encode_of_lt hlt]
        simp only [List.singleton_append, decode, hbyte, hlt, if_true]
      · have hbyte : (UInt8.ofNat (n % 128 + 128)).toNat = n % 128 + 128 := by
          rw [UInt8.toNat_ofNat']
          omega
        have hcontinues : ¬ n % 128 + 128 < 128 := by omega
        rw [encode_of_ge hge, List.cons_append]
        simp only [decode, hbyte, hcontinues, if_false, ih (n / 128) (by omega), Option.map_some,
          Option.some.injEq, Prod.mk.injEq, and_true]
        omega

theorem decode_rest {bytes rest : List UInt8} {n : Nat} (h : decode bytes = some (n, rest)) :
    rest <:+ bytes ∧ rest.length < bytes.length := by
  induction bytes generalizing n with
  | nil => simp [decode] at h
  | cons b tail ih =>
      simp only [decode] at h
      split_ifs at h
      · simp only [Option.some.injEq, Prod.mk.injEq] at h
        obtain ⟨-, rfl⟩ := h
        exact ⟨List.suffix_cons _ _, by simp⟩
      · simp only [Option.map_eq_some_iff, Prod.exists, Prod.mk.injEq] at h
        obtain ⟨m, after, hdecode, -, rfl⟩ := h
        obtain ⟨hsuffix, hlength⟩ := ih hdecode
        refine ⟨hsuffix.trans (List.suffix_cons _ _), ?_⟩
        rw [List.length_cons]
        omega

/-- Of a number at the front only its own bytes are looked at. -/
theorem decode_eq_some {bytes rest : List UInt8} {n : Nat} :
    decode bytes = some (n, rest) ↔ ∃ own, bytes = own ++ rest ∧ decode own = some (n, []) := by
  induction bytes generalizing n with
  | nil =>
      simp only [decode, reduceCtorEq, false_iff, not_exists, not_and]
      intro own happend hown
      obtain ⟨rfl, -⟩ := List.append_eq_nil_iff.mp happend.symm
      simp [decode] at hown
  | cons b tail ih =>
      by_cases hlast : b.toNat < 128
      · simp only [decode, hlast, if_true, Option.some.injEq, Prod.mk.injEq]
        constructor
        · intro hgiven
          obtain ⟨rfl, rfl⟩ := hgiven
          exact ⟨[b], rfl, by simp [decode, hlast]⟩
        · intro hgiven
          obtain ⟨own, happend, hown⟩ := hgiven
          cases own with
          | nil => simp [decode] at hown
          | cons c own =>
              obtain ⟨rfl, rfl⟩ := List.cons.inj happend
              simp only [decode, hlast, if_true, Option.some.injEq, Prod.mk.injEq] at hown
              obtain ⟨rfl, rfl⟩ := hown
              exact ⟨rfl, rfl⟩
      · simp only [decode, hlast, if_false, Option.map_eq_some_iff, Prod.exists, Prod.mk.injEq]
        constructor
        · intro hgiven
          obtain ⟨m, _, hdecode, rfl, rfl⟩ := hgiven
          obtain ⟨own, rfl, hown⟩ := ih.mp hdecode
          refine ⟨b :: own, rfl, ?_⟩
          simp only [decode, hlast, if_false, hown, Option.map_some]
        · intro hgiven
          obtain ⟨own, happend, hown⟩ := hgiven
          cases own with
          | nil => simp [decode] at hown
          | cons c own =>
              obtain ⟨rfl, rfl⟩ := List.cons.inj happend
              simp only [decode, hlast, if_false, Option.map_eq_some_iff, Prod.exists,
                Prod.mk.injEq] at hown
              obtain ⟨m, after, hdecode, rfl, rfl⟩ := hown
              exact ⟨m, rest, ih.mpr ⟨own, rfl, hdecode⟩, rfl, rfl⟩

end Base128
