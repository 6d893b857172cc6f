import EternalTerminal.Backed.Reader
import EternalTerminal.Proof.Nonce

/-!
# Sealing and opening one packet

What encryption makes of a packet and that opening the serialized result under the same nonce gives
the packet back. The nonce moves by one in both, whatever the outcome, unless the packet is turned
away before the cipher is called.
-/

namespace EternalTerminal

/-- `stored` is `plain` with its payload encrypted under `nonce`. -/
structure Seals (cipher : Cipher) (nonce : Nonce) (plain stored : Packet) : Prop where
  plain_flag : plain.encrypted = false
  stored_flag : stored.encrypted = true
  header : stored.header = plain.header
  payload : cipher.encrypt nonce plain.payload = some stored.payload

namespace Seals

variable {cipher : Cipher} {nonce : Nonce} {plain stored : Packet}

theorem length_stored (h : Seals cipher nonce plain stored) (hlawful : cipher.Lawful) :
    stored.length = plain.length + macBytes := by
  have hlength := hlawful.length_encrypt h.payload
  simp only [Packet.length] at hlength ⊢
  omega

end Seals

namespace Packet

theorem encrypt_eq_ok {plain stored : Packet} {crypto crypto' : CryptoHandler} :
    plain.encrypt crypto = (.ok stored, crypto') ↔
      Seals crypto.cipher crypto.nonce.increment plain stored ∧ crypto' = crypto.incrementNonce := by
  obtain ⟨flag, header, payload⟩ := plain
  obtain ⟨flag', header', payload'⟩ := stored
  cases flag with
  | true =>
      simp only [encrypt, if_true, Prod.mk.injEq, reduceCtorEq, false_and, false_iff, not_and]
      exact fun h => absurd h.plain_flag (by simp)
  | false =>
      simp only [encrypt, Bool.false_eq_true, if_false, CryptoHandler.encrypt]
      have hcipher : crypto.incrementNonce.cipher = crypto.cipher := rfl
      have hnonce : crypto.incrementNonce.nonce = crypto.nonce.increment := rfl
      rw [hcipher, hnonce]
      cases hseal : crypto.cipher.encrypt crypto.nonce.increment payload with
      | none =>
          simp only [Prod.mk.injEq, reduceCtorEq, false_and, false_iff, not_and]
          intro h
          have hpayload := h.payload
          simp only [hseal] at hpayload
          exact absurd hpayload (by simp)
      | some sealed =>
          simp only [Prod.mk.injEq, Except.ok.injEq, Packet.mk.injEq]
          constructor
          · intro hgiven
            obtain ⟨⟨rfl, rfl, rfl⟩, rfl⟩ := hgiven
            exact ⟨⟨rfl, rfl, rfl, hseal⟩, rfl⟩
          · intro hgiven
            obtain ⟨h, rfl⟩ := hgiven
            have hpayload := h.payload
            simp only [hseal, Option.some.injEq] at hpayload
            exact ⟨⟨h.stored_flag.symm, h.header.symm, hpayload⟩, rfl⟩

theorem encrypt_of_encrypted {plain : Packet} (h : plain.encrypted = true) (crypto : CryptoHandler) :
    plain.encrypt crypto = (.error (.msg "packet already encrypted"), crypto) := by
  simp only [encrypt, h, if_true]

/-- With a cipher that does not fail, every packet without the flag is sealed. -/
theorem encrypt_of_plain {plain : Packet} {crypto : CryptoHandler} (h : plain.encrypted = false)
    (htotal : ∀ nonce plaintext, (crypto.cipher.encrypt nonce plaintext).isSome) :
    ∃ stored, plain.encrypt crypto = (.ok stored, crypto.incrementNonce) := by
  obtain ⟨payload, hpayload⟩ := Option.isSome_iff_exists.mp
    (htotal crypto.nonce.increment plain.payload)
  exact ⟨⟨true, plain.header, payload⟩, encrypt_eq_ok.mpr ⟨⟨h, rfl, rfl, hpayload⟩, rfl⟩⟩

end Packet

/-! ### Opening -/

/-- The bytes get as far as the cipher: they are a packet that carries the flag and is long enough
for a MAC. -/
def ReachesCipher (serialized : Bytes) (packet : Packet) : Prop :=
  Packet.fromSerialized serialized = .ok packet ∧ packet.encrypted = true
    ∧ macBytes ≤ packet.payload.length

/-- The bytes open under the next nonce. -/
def Authentic (crypto : CryptoHandler) (serialized : Bytes) : Prop :=
  ∃ packet, ReachesCipher serialized packet
    ∧ (crypto.cipher.decrypt crypto.nonce.increment packet.payload).isSome

/-- The bytes get as far as the cipher and fail to authenticate under the next nonce. -/
def Forged (crypto : CryptoHandler) (serialized : Bytes) : Prop :=
  ∃ packet, ReachesCipher serialized packet
    ∧ crypto.cipher.decrypt crypto.nonce.increment packet.payload = none

/-- The ways to open a packet. The nonce has moved unless the cipher was not asked. -/
inductive Opens (crypto : CryptoHandler) (serialized : Bytes) :
    Except Error Packet × CryptoHandler → Prop
  | authentic {packet payload} : ReachesCipher serialized packet →
      crypto.cipher.decrypt crypto.nonce.increment packet.payload = some payload →
      Opens crypto serialized (.ok { packet with payload, encrypted := false }, crypto.incrementNonce)
  | forged {packet} : ReachesCipher serialized packet →
      crypto.cipher.decrypt crypto.nonce.increment packet.payload = none →
      Opens crypto serialized (.error (.crypto .decrypt), crypto.incrementNonce)
  | malformed {e} : (∀ packet, ¬ ReachesCipher serialized packet) →
      Opens crypto serialized (.error e, crypto)

theorem ReachesCipher.unique {serialized : Bytes} {left right : Packet}
    (hleft : ReachesCipher serialized left) (hright : ReachesCipher serialized right) :
    left = right := by
  have h := hleft.1
  rw [hright.1] at h
  exact (Except.ok.inj h).symm

theorem openPacket_spec (crypto : CryptoHandler) (serialized : Bytes) :
    Opens crypto serialized (openPacket serialized crypto) := by
  rcases hparse : Packet.fromSerialized serialized with e | packet
  · have hnone : ∀ packet, ¬ ReachesCipher serialized packet := by
      intro packet hreaches
      have h := hreaches.1
      rw [hparse] at h
      exact absurd h (by simp)
    simp only [openPacket, hparse]
    exact .malformed hnone
  · have hsame : ∀ other, ReachesCipher serialized other → other = packet := by
      intro other hreaches
      have h := hreaches.1
      rw [hparse] at h
      exact (Except.ok.inj h).symm
    simp only [openPacket, hparse, Packet.decrypt, CryptoHandler.decrypt]
    cases hflag : packet.encrypted with
    | false =>
        refine .malformed fun other hreaches => ?_
        obtain rfl := hsame other hreaches
        exact absurd hreaches.2.1 (by simp [hflag])
    | true =>
        by_cases hshort : packet.payload.length < macBytes
        · simp only [hshort, Bool.not_true, Bool.false_eq_true, if_false, if_true]
          refine .malformed fun other hreaches => ?_
          obtain rfl := hsame other hreaches
          have hmac := hreaches.2.2
          omega
        · have hreaches : ReachesCipher serialized packet := ⟨hparse, hflag, by omega⟩
          have hcipher : crypto.incrementNonce.cipher = crypto.cipher := rfl
          have hnonce : crypto.incrementNonce.nonce = crypto.nonce.increment := rfl
          simp only [hshort, Bool.not_true, Bool.false_eq_true, if_false, hcipher, hnonce]
          cases hopen : crypto.cipher.decrypt crypto.nonce.increment packet.payload with
          | none => exact .forged hreaches hopen
          | some payload => exact .authentic hreaches hopen

/-- Opening under the nonce a packet was sealed with returns the packet. -/
theorem openPacket_serialize {crypto : CryptoHandler} {plain stored : Packet}
    (hlawful : crypto.cipher.Lawful) (h : Seals crypto.cipher crypto.nonce.increment plain stored) :
    openPacket stored.serialize crypto = (.ok plain, crypto.incrementNonce) := by
  have hlength := hlawful.length_encrypt h.payload
  have hreaches : ReachesCipher stored.serialize stored :=
    ⟨Packet.fromSerialized_serialize stored, h.stored_flag, by omega⟩
  have hdecrypt := hlawful.decrypt_encrypt h.payload
  generalize hout : openPacket stored.serialize crypto = out
  have hopens := openPacket_spec crypto stored.serialize
  rw [hout] at hopens
  cases hopens with
  | authentic hreaches' hopen =>
      obtain rfl := hreaches.unique hreaches'
      rw [hdecrypt, Option.some.injEq] at hopen
      rw [← hopen, h.header, ← h.plain_flag]
  | forged hreaches' hopen =>
      obtain rfl := hreaches.unique hreaches'
      rw [hdecrypt] at hopen
      exact absurd hopen (by simp)
  | malformed hnone => exact absurd hreaches (hnone stored)

/-! ### The assumptions on the cipher can be met -/

/-- A cipher whose MAC is the first bytes of the nonce. -/
def tagCipher : Cipher where
  encrypt nonce plaintext := some (nonce.bytes.take macBytes ++ plaintext)
  decrypt nonce sealed :=
    if sealed.take macBytes = nonce.bytes.take macBytes then some (sealed.drop macBytes) else none

theorem tagCipher_lawful : tagCipher.Lawful := by
  have htag : ∀ nonce : Nonce, (nonce.bytes.take macBytes).length = macBytes := by
    intro nonce
    simp [nonce.length_bytes, macBytes, nonceBytes]
  refine ⟨fun _ _ => rfl, ?_, ?_⟩
  · intro nonce plaintext sealed h
    obtain rfl := Option.some.inj h
    rw [List.length_append, htag, Nat.add_comm]
  · intro nonce plaintext sealed h
    obtain rfl := Option.some.inj h
    have htake : (nonce.bytes.take macBytes ++ plaintext).take macBytes =
        nonce.bytes.take macBytes := List.take_left' (htag nonce)
    have hdrop : (nonce.bytes.take macBytes ++ plaintext).drop macBytes = plaintext :=
      List.drop_left' (htag nonce)
    simp only [tagCipher, htake, hdrop, if_true]

end EternalTerminal
