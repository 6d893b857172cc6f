import EternalTerminal.Proof.CatchupSize

/-!
# The allowance without a socket

`write` admits a packet by its length before encryption and charges the allowance with its length after,
so the charge is always what is stored, but the packet that uses the allowance up may be charged for more
than is left of it.
-/

namespace EternalTerminal

inductive AllowanceEvent where
  /-- A packet accepted without a socket, as it is stored. -/
  | buffered (stored : Packet)
  | revived

/-- What a step shows of the allowance. -/
def allowanceEvents (writer : BackedWriter) : WriterOp → List AllowanceEvent
  | .write packet results =>
    if writer.socket.isNone then (writer.write packet results).pushed.toList.map .buffered else []
  | .invalidateSocket => []
  | .recover _ => []
  | .revive _ => [.revived]

/-- The writer, with what its steps show of the allowance. -/
def allowanceMachine : Transducer BackedWriter WriterOp AllowanceEvent := fun writer op =>
  (writerMachine writer op).map fun out => (out.1, allowanceEvents writer op)

/-- The packets accepted without a socket since the last `revive`. -/
def sinceRevive (events : List AllowanceEvent) : List Packet :=
  events.foldl (fun packets event =>
    match event with
    | .buffered stored => packets ++ [stored]
    | .revived => []) []

/-- Their total stored length. -/
def charged (events : List AllowanceEvent) : Nat := (sinceRevive events).weightSum Packet.length

@[simp] theorem charged_nil : charged [] = 0 := rfl

@[simp] theorem charged_buffered (events : List AllowanceEvent) (stored : Packet) :
    charged (events ++ [.buffered stored]) = charged events + stored.length := by
  simp [charged, sinceRevive]

@[simp] theorem charged_revived (events : List AllowanceEvent) :
    charged (events ++ [.revived]) = 0 := by
  simp [charged, sinceRevive]

/-- A packet accepted without a socket is charged for no more than is left. -/
def AllowanceFits : BackedWriter → WriterOp → Prop :=
  RoomFor BackedWriter.disconnectedBytes id disconnectBufferBytes

/-! ### What a step charges -/

/-- The ways a step can treat the allowance. -/
inductive Charges (writer : BackedWriter) :
    WriterOp → BackedWriter → List AllowanceEvent → Prop
  | keeps {op writer'} : AllowanceFits writer op →
      writer'.disconnectedBytes = writer.disconnectedBytes → Charges writer op writer' []
  | charges {packet results stored writer'} : writer.socket = none →
      writer.refuses packet = false → packet.encrypted = false →
      stored.length = packet.length + macBytes →
      writer'.disconnectedBytes = writer.disconnectedBytes + stored.length →
      Charges writer (.write packet results) writer' [.buffered stored]
  | resets {socket writer'} : writer'.disconnectedBytes = 0 →
      Charges writer (.revive socket) writer' [.revived]

theorem Packet.cipher_of_encrypt {packet : Packet} {crypto crypto' : CryptoHandler}
    {result : Except Error Packet} (h : packet.encrypt crypto = (result, crypto')) :
    crypto'.cipher = crypto.cipher := by
  have hcipher : (packet.encrypt crypto).2.cipher = crypto.cipher := by
    simp only [encrypt, CryptoHandler.encrypt]
    split
    · rfl
    · cases crypto.incrementNonce.cipher.encrypt crypto.incrementNonce.nonce packet.payload <;> rfl
  rw [← hcipher, h]

theorem WriterSteps.cipher_eq {writer writer' : BackedWriter} {op : WriterOp} {out : List WriterEvent}
    (h : WriterSteps writer op writer' out) : writer'.crypto.cipher = writer.crypto.cipher := by
  cases h with
  | write hwrites =>
      cases hwrites with
      | refused hrefuses => rfl
      | notEncrypted hrefuses hencrypt => exact Packet.cipher_of_encrypt hencrypt
      | buffered hrefuses hencrypt hsocket => exact Packet.cipher_of_encrypt hencrypt
      | sent hencrypt hsocket hall => exact Packet.cipher_of_encrypt hencrypt
      | broken hencrypt hsocket hfail => exact Packet.cipher_of_encrypt hencrypt
  | _ => rfl

theorem charges_write {writer : BackedWriter} {packet : Packet} {results : List IoResult}
    (hlawful : writer.crypto.cipher.Lawful) :
    Charges writer (.write packet results) (writer.write packet results).writer
      (allowanceEvents writer (.write packet results)) := by
  have hwrites := writer.write_spec packet results
  simp only [allowanceEvents]
  generalize writer.write packet results = written at hwrites ⊢
  cases hwrites with
  | refused hrefuses =>
      have hfits : AllowanceFits writer (.write packet results) := by
        intro _ haccepts
        rw [hrefuses] at haccepts
        exact absurd haccepts (by simp)
      simp only [Option.toList_none, List.map_nil, ite_self]
      exact .keeps hfits rfl
  | notEncrypted hrefuses hencrypt =>
      have hfits : AllowanceFits writer (.write packet results) := by
        intro _ _ hflag
        obtain ⟨stored, hstored⟩ := Packet.encrypt_of_plain hflag hlawful.encrypt_isSome
        rw [hencrypt] at hstored
        exact absurd (Prod.mk.inj hstored).1 (by simp)
      simp only [Option.toList_none, List.map_nil, ite_self]
      exact .keeps hfits rfl
  | @buffered stored crypto hrefuses hencrypt hsocket =>
      obtain ⟨hseals, -⟩ := Packet.encrypt_eq_ok.mp hencrypt
      simp only [hsocket, Option.isNone_none, if_true, Option.toList_some, List.map_singleton]
      exact .charges hsocket hrefuses hseals.plain_flag (hseals.length_stored hlawful) rfl
  | sent hencrypt hsocket hall =>
      simp only [hsocket, Option.isNone_some, Bool.false_eq_true, if_false]
      exact .keeps (fun hnone => absurd (hsocket.symm.trans hnone) (Option.some_ne_none _)) rfl
  | broken hencrypt hsocket hfail =>
      simp only [hsocket, Option.isNone_some, Bool.false_eq_true, if_false]
      exact .keeps (fun hnone => absurd (hsocket.symm.trans hnone) (Option.some_ne_none _)) rfl

theorem allowanceStep_spec {writer writer' : BackedWriter} {op : WriterOp}
    {out : List AllowanceEvent} (hlawful : writer.crypto.cipher.Lawful)
    (h : allowanceMachine writer op = some (writer', out)) :
    Charges writer op writer' out ∧ writer'.crypto.cipher = writer.crypto.cipher := by
  simp only [allowanceMachine, Option.map_eq_some_iff, Prod.mk.injEq] at h
  obtain ⟨⟨next, events⟩, hstep, rfl, rfl⟩ := h
  have hsteps := writerStep_spec hstep
  refine ⟨?_, hsteps.cipher_eq⟩
  cases op with
  | write packet results =>
      obtain ⟨rfl, -⟩ := Prod.mk.inj (Option.some.inj hstep)
      exact charges_write hlawful
  | invalidateSocket =>
      cases hsteps
      exact .keeps trivial rfl
  | recover n =>
      cases hsteps
      exact .keeps trivial rfl
  | revive socket =>
      cases hsteps
      exact .resets rfl

/-! ### Runs -/

/-- The allowance of a writer of a run: what was charged, at most `slack` too much. -/
structure Capped (cipher : Cipher) (slack : Nat) (writer : BackedWriter)
    (events : List AllowanceEvent) : Prop where
  cipher_eq : writer.crypto.cipher = cipher
  charged_eq : writer.disconnectedBytes = charged events
  within : writer.disconnectedBytes ≤ disconnectBufferBytes + slack

namespace Capped

variable {cipher : Cipher} {slack : Nat} {writer writer' : BackedWriter}
  {events out : List AllowanceEvent} {op : WriterOp}

theorem new (crypto : CryptoHandler) (socket : TcpStream) (slack : Nat) :
    Capped crypto.cipher slack (BackedWriter.new crypto socket) [] := ⟨rfl, rfl, Nat.zero_le _⟩

/-- The charge is always what is stored, and only a packet without a socket can break the cap. -/
theorem step (h : Capped cipher slack writer events) (hlawful : cipher.Lawful)
    (hroom : ∀ packet results, op = .write packet results → writer.socket = none →
      writer.refuses packet = false → packet.encrypted = false →
      writer.disconnectedBytes + (packet.length + macBytes) ≤ disconnectBufferBytes + slack)
    (hstep : allowanceMachine writer op = some (writer', out)) :
    Capped cipher slack writer' (events ++ out) := by
  obtain ⟨hcharges, hcipher⟩ := allowanceStep_spec (h.cipher_eq ▸ hlawful) hstep
  have hcharged := h.charged_eq
  have hwithin := h.within
  refine ⟨hcipher.trans h.cipher_eq, ?_, ?_⟩
  · cases hcharges with
    | keeps hfits hsame => rw [hsame, hcharged, List.append_nil]
    | charges hsocket haccepts hflag hlength hmore => rw [hmore, hcharged, charged_buffered]
    | resets hzero => rw [hzero, charged_revived]
  · cases hcharges with
    | keeps hfits hsame => rwa [hsame]
    | charges hsocket haccepts hflag hlength hmore =>
        rw [hmore, hlength]
        exact hroom _ _ rfl hsocket haccepts hflag
    | resets hzero => omega

theorem exceeds (h : Capped cipher slack writer events) (hlawful : cipher.Lawful)
    (hnot : ¬ AllowanceFits writer op) (hstep : allowanceMachine writer op = some (writer', out)) :
    disconnectBufferBytes < writer'.disconnectedBytes := by
  obtain ⟨hcharges, -⟩ := allowanceStep_spec (h.cipher_eq ▸ hlawful) hstep
  cases hcharges with
  | keeps hfits hsame => exact absurd hfits hnot
  | charges hsocket haccepts hflag hlength hmore =>
      rw [hmore, hlength]
      by_contra hsmall
      exact hnot fun _ _ _ => Nat.not_lt.mp hsmall
  | resets hzero => exact absurd trivial hnot

end Capped

/-- **The allowance as a cap.** In every state of a run `disconnected_bytes` is the stored length of what
was accepted without a socket since the last `revive`, and it is at most the allowance and one MAC. It is
at most the allowance in every state if and only if no packet is accepted without a socket whose MAC does
not fit any more. -/
theorem disconnected_capped_iff_fits {crypto : CryptoHandler} (hlawful : crypto.cipher.Lawful)
    (socket : TcpStream) (ops : List WriterOp) :
    (allowanceMachine.Always (fun writer events => writer.disconnectedBytes = charged events
          ∧ writer.disconnectedBytes ≤ disconnectBufferBytes)
        (BackedWriter.new crypto socket) ops ↔
      allowanceMachine.Along AllowanceFits (BackedWriter.new crypto socket) ops)
      ∧ allowanceMachine.Always (fun writer events => writer.disconnectedBytes = charged events
          ∧ writer.disconnectedBytes ≤ disconnectBufferBytes + macBytes)
        (BackedWriter.new crypto socket) ops := by
  constructor
  · apply allowanceMachine.always_iff_along (J := Capped crypto.cipher 0)
    · intro writer before op writer' out h hfits hstep
      refine h.step hlawful (fun packet results hop hsocket haccepts hflag => ?_) hstep
      subst hop
      exact hfits hsocket haccepts hflag
    · exact fun h => ⟨h.charged_eq, h.within⟩
    · intro writer before op writer' out h hnot hstep hcapped
      exact absurd hcapped.2 (Nat.not_le.mpr (h.exceeds hlawful hnot hstep))
    · exact .new crypto socket 0
  · have hcapped : allowanceMachine.Always (Capped crypto.cipher macBytes)
        (BackedWriter.new crypto socket) ops := by
      refine allowanceMachine.always_of_steps (.new crypto socket macBytes) ?_
      intro first op hpre writer before writer' out hrun hstep h
      refine h.step hlawful (fun packet results hop hsocket haccepts hflag => ?_) hstep
      simp only [BackedWriter.refuses, hsocket, Option.isNone_none, Bool.true_and, gt_iff_lt,
        decide_eq_false_iff_not, not_lt] at haccepts
      omega
    intro first hpre writer events hrun
    have h := hcapped first hpre writer events hrun
    exact ⟨h.charged_eq, h.within⟩

/-- One packet written without a socket fits. -/
theorem disconnected_capped_iff_fits_one_write :
    let writer := BackedWriter.new ⟨tagCipher, .start clientServerNonceMsb⟩ ⟨0⟩
    allowanceMachine.Always (fun writer events => writer.disconnectedBytes = charged events
        ∧ writer.disconnectedBytes ≤ disconnectBufferBytes) writer
      [.invalidateSocket, .write (.new 1 [7]) []] := by
  apply (disconnected_capped_iff_fits tagCipher_lawful ⟨0⟩ _).1.mpr
  rw [allowanceMachine.along_cons rfl, allowanceMachine.along_cons rfl]
  exact ⟨trivial, fun _ _ _ => by decide, allowanceMachine.along_nil _ _⟩

/-- The first packet without a socket breaks the cap if it fits and its MAC does not. -/
theorem cap_broken {crypto : CryptoHandler} (hlawful : crypto.cipher.Lawful) (socket : TcpStream)
    {packet : Packet} (hflag : packet.encrypted = false)
    (hadmitted : packet.length ≤ disconnectBufferBytes)
    (hover : disconnectBufferBytes < packet.length + macBytes) (results : List IoResult) :
    ¬ allowanceMachine.Always (fun writer _ => writer.disconnectedBytes ≤ disconnectBufferBytes)
      (BackedWriter.new crypto socket) [.invalidateSocket, .write packet results] := by
  intro halways
  let broken := (BackedWriter.new crypto socket).invalidateSocket
  have haccepts : broken.refuses packet = false := by
    simp only [BackedWriter.refuses, broken, BackedWriter.invalidateSocket, BackedWriter.new,
      Option.isNone_none, Bool.true_and, Nat.zero_add, gt_iff_lt, decide_eq_false_iff_not, not_lt]
    exact hadmitted
  have hcapped : Capped crypto.cipher 0 broken [] := ⟨rfl, rfl, Nat.zero_le _⟩
  have hnot : ¬ AllowanceFits broken (.write packet results) := by
    intro hfits
    have hroom : broken.disconnectedBytes + (packet.length + macBytes) ≤ disconnectBufferBytes :=
      hfits rfl haccepts hflag
    have hzero : broken.disconnectedBytes = 0 := rfl
    omega
  have hexceeds := hcapped.exceeds hlawful hnot rfl
  exact absurd (halways _ List.prefix_rfl _ _ rfl) (Nat.not_le.mpr hexceeds)

/-- A first packet that is as long as the allowance. -/
theorem cap_broken_by_one_packet :
    ¬ allowanceMachine.Always (fun writer events => writer.disconnectedBytes = charged events
        ∧ writer.disconnectedBytes ≤ disconnectBufferBytes)
      (BackedWriter.new ⟨tagCipher, .start clientServerNonceMsb⟩ ⟨0⟩)
      [.invalidateSocket, .write (filler disconnectBufferBytes) []] := by
  intro halways
  have hlength : (filler disconnectBufferBytes).length = disconnectBufferBytes :=
    length_filler (by decide)
  refine cap_broken tagCipher_lawful ⟨0⟩ rfl hlength.le ?_ [] fun first hpre writer events hrun =>
    (halways first hpre writer events hrun).2
  rw [hlength]
  decide

end EternalTerminal
