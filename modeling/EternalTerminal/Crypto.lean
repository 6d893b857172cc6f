import EternalTerminal.Library.LittleEndian

/-!
# The secretbox stream (`crypto.rs`)

A `CryptoHandler` is a keyed cipher and a counter nonce. The cipher itself is the third-party crate's
`XSalsa20Poly1305`, so it stays a parameter; what the crate documents of it is `Cipher.Lawful`.
-/

namespace EternalTerminal

/-- `[u8]`, `Vec<u8>` and a borrowed slice of either. -/
abbrev Bytes := List UInt8

def keyBytes : Nat := 32
def nonceBytes : Nat := 24
def macBytes : Nat := 16

/-- Client to server. -/
def clientServerNonceMsb : UInt8 := 0
/-- Server to client. -/
def serverClientNonceMsb : UInt8 := 1

inductive CryptoError where
  | invalidKeyLength (got : Nat)
  | encrypt
  | decrypt
  | truncated
  deriving DecidableEq, Repr

/-- `[u8; NONCE_BYTES]`. -/
@[ext] structure Nonce where
  bytes : Bytes
  length_bytes : bytes.length = nonceBytes
  deriving DecidableEq

/-- The loop of `Inner::increment_nonce`: add one to a byte, go on to the next only if it wrapped. -/
def incrementBytes : Bytes → Bytes
  | [] => []
  | b :: rest => if b + 1 ≠ 0 then (b + 1) :: rest else (b + 1) :: incrementBytes rest

theorem length_incrementBytes (bytes : Bytes) : (incrementBytes bytes).length = bytes.length := by
  induction bytes with
  | nil => rfl
  | cons b rest ih =>
      simp only [incrementBytes]
      split <;> simp [ih]

def Nonce.increment (nonce : Nonce) : Nonce :=
  ⟨incrementBytes nonce.bytes, by rw [length_incrementBytes, nonce.length_bytes]⟩

/-- The nonce a new handler starts from: zero but for the last byte. -/
def Nonce.start (nonceMsb : UInt8) : Nonce :=
  ⟨List.replicate (nonceBytes - 1) 0 ++ [nonceMsb], by simp [nonceBytes]⟩

/-- `XSalsa20Poly1305` under one key. `none` stands for the crate's opaque `Error`. -/
structure Cipher where
  encrypt : Nonce → Bytes → Option Bytes
  decrypt : Nonce → Bytes → Option Bytes

/-- What the crate documents of `crypto_secretbox`: sealing a message that fits in memory succeeds,
puts `MAC_BYTES` in front of the ciphertext, and opening under the same nonce gives the message
back. -/
structure Cipher.Lawful (cipher : Cipher) : Prop where
  encrypt_isSome : ∀ nonce plaintext, (cipher.encrypt nonce plaintext).isSome
  length_encrypt : ∀ {nonce plaintext sealed}, cipher.encrypt nonce plaintext = some sealed →
    sealed.length = plaintext.length + macBytes
  decrypt_encrypt : ∀ {nonce plaintext sealed}, cipher.encrypt nonce plaintext = some sealed →
    cipher.decrypt nonce sealed = some plaintext

structure CryptoHandler where
  cipher : Cipher
  nonce : Nonce

namespace CryptoHandler

/-- `CryptoHandler::new`; `xsalsa20poly1305` is the crate's `XSalsa20Poly1305::new`. -/
def new (xsalsa20poly1305 : Bytes → Cipher) (key : Bytes) (nonceMsb : UInt8) :
    Except CryptoError CryptoHandler :=
  if key.length ≠ keyBytes then .error (.invalidKeyLength key.length)
  else .ok { cipher := xsalsa20poly1305 key, nonce := Nonce.start nonceMsb }

def incrementNonce (crypto : CryptoHandler) : CryptoHandler :=
  { crypto with nonce := crypto.nonce.increment }

def encrypt (crypto : CryptoHandler) (plaintext : Bytes) :
    Except CryptoError Bytes × CryptoHandler :=
  let crypto := crypto.incrementNonce
  match crypto.cipher.encrypt crypto.nonce plaintext with
  | some sealed => (.ok sealed, crypto)
  | none => (.error .encrypt, crypto)

/-- The length is checked before the nonce moves, the authentication only after. -/
def decrypt (crypto : CryptoHandler) (data : Bytes) :
    Except CryptoError Bytes × CryptoHandler :=
  if data.length < macBytes then (.error .truncated, crypto)
  else
    let crypto := crypto.incrementNonce
    match crypto.cipher.decrypt crypto.nonce data with
    | some plaintext => (.ok plaintext, crypto)
    | none => (.error .decrypt, crypto)

end CryptoHandler

end EternalTerminal
