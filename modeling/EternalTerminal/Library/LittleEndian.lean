import Mathlib.Data.Nat.Digits.Defs

/-!
# Little-endian byte strings as numbers

A byte string of fixed length and the number below `256 ^ length` it stands for, least significant
byte first. Length prefixes and counters reach their bytes only through these names.
-/

/-- The number a byte string stands for, least significant byte first. -/
def leValue (bytes : List UInt8) : Nat := Nat.ofDigits 256 (bytes.map UInt8.toNat)

/-- The low `n` bytes of a number, least significant first. -/
def leBytes : Nat → Nat → List UInt8
  | 0, _ => []
  | n + 1, k => UInt8.ofNat k :: leBytes n (k / 256)

@[simp] theorem leValue_nil : leValue [] = 0 := rfl

@[simp] theorem leValue_cons (b : UInt8) (rest : List UInt8) :
    leValue (b :: rest) = b.toNat + 256 * leValue rest := by
  simp [leValue, Nat.ofDigits_cons]

theorem leValue_append (low high : List UInt8) :
    leValue (low ++ high) = leValue low + 256 ^ low.length * leValue high := by
  simp only [leValue, List.map_append, Nat.ofDigits_append, List.length_map]

theorem leValue_lt (bytes : List UInt8) : leValue bytes < 256 ^ bytes.length := by
  have hdigit : ∀ d ∈ bytes.map UInt8.toNat, d < 256 := by
    intro d hd
    obtain ⟨b, -, rfl⟩ := List.mem_map.mp hd
    exact b.toNat_lt
  simpa only [leValue, List.length_map] using
    Nat.ofDigits_lt_base_pow_length (by decide) hdigit

@[simp] theorem length_leBytes (n k : Nat) : (leBytes n k).length = n := by
  induction n generalizing k with
  | zero => rfl
  | succ n ih => simp only [leBytes, List.length_cons, ih]

theorem leValue_leBytes (n k : Nat) : leValue (leBytes n k) = k % 256 ^ n := by
  induction n generalizing k with
  | zero => simp [leBytes, Nat.mod_one]
  | succ n ih =>
      have hbyte : (UInt8.ofNat k).toNat = k % 256 := UInt8.toNat_ofNat'
      simp only [leBytes, leValue_cons, ih, hbyte]
      rw [Nat.pow_succ', Nat.mod_mul]

theorem leValue_leBytes_of_lt {n k : Nat} (h : k < 256 ^ n) : leValue (leBytes n k) = k := by
  rw [leValue_leBytes, Nat.mod_eq_of_lt h]

theorem leBytes_leValue (bytes : List UInt8) : leBytes bytes.length (leValue bytes) = bytes := by
  induction bytes with
  | nil => rfl
  | cons b rest ih =>
      have hb : b.toNat < 256 := b.toNat_lt
      have hlow : UInt8.ofNat (b.toNat + 256 * leValue rest) = b := by
        apply UInt8.toNat.inj
        rw [UInt8.toNat_ofNat']
        omega
      have hhigh : (b.toNat + 256 * leValue rest) / 256 = leValue rest := by omega
      simp only [List.length_cons, leBytes, leValue_cons, hlow, hhigh, ih]

theorem leValue_inj {left right : List UInt8} (hlength : left.length = right.length)
    (h : leValue left = leValue right) : left = right := by
  rw [← leBytes_leValue left, ← leBytes_leValue right, hlength, h]

@[simp] theorem leBytes_zero (n : Nat) : leBytes n 0 = List.replicate n 0 := by
  induction n with
  | zero => rfl
  | succ n ih => simp only [leBytes, Nat.zero_div, ih, List.replicate_succ]; rfl
