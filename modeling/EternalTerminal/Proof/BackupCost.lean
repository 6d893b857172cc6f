import EternalTerminal.Proof.WriterLog

/-!
# What the backup costs

Each packet of the backup costs something by its length, in memory or in a message. A write on a live
socket cuts the backup down, so only packets that are accepted without a socket can take the total over
a limit that the cut-down backup keeps. `RoomFor` says when such a packet does not, for anything that is
used up by these packets.
-/

namespace EternalTerminal

/-- A step in which a packet that is accepted without a socket costs no more, sealed, than is left. -/
def RoomFor (used : BackedWriter → Nat) (cost : Nat → Nat) (limit : Nat) (writer : BackedWriter) :
    WriterOp → Prop
  | .write packet _ => writer.socket = none → writer.refuses packet = false →
      packet.encrypted = false → used writer + cost (packet.length + macBytes) ≤ limit
  | .invalidateSocket => True
  | .recover _ => True
  | .revive _ => True

theorem roomFor_congr {used used' : BackedWriter → Nat} {cost : Nat → Nat} {limit : Nat}
    {writer : BackedWriter} (h : used writer = used' writer) (op : WriterOp) :
    RoomFor used cost limit writer op ↔ RoomFor used' cost limit writer op := by
  cases op with
  | write packet results => simp only [RoomFor, h]
  | invalidateSocket => exact Iff.rfl
  | recover n => exact Iff.rfl
  | revive socket => exact Iff.rfl

def backupCost (cost : Nat → Nat) (packets : List Packet) : Nat :=
  packets.weightSum fun packet => cost packet.length

/-- A step after which the whole backup costs at most `limit` if it did before. -/
def CostFits (cost : Nat → Nat) (limit : Nat) : BackedWriter → WriterOp → Prop :=
  RoomFor (fun writer => backupCost cost writer.backup) cost limit

variable {cost : Nat → Nat} {limit : Nat} {writer : BackedWriter}

theorem backupCost_push_of_none (hsocket : writer.socket = none) (crypto : CryptoHandler)
    (stored : Packet) :
    backupCost cost (writer.push crypto stored).backup =
      backupCost cost writer.backup + cost stored.length := by
  simp [BackedWriter.push, hsocket, backupCost, Nat.add_comm]

theorem weightSum_push_of_some {socket : TcpStream} (hsocket : writer.socket = some socket)
    (crypto : CryptoHandler) (stored : Packet)
    (hsize : writer.backupSize = writer.backup.weightSum Packet.length) :
    (writer.push crypto stored).backup.weightSum Packet.length ≤ maxBackupBytes := by
  have hkept := (BackedWriter.reverse_backup_push crypto stored hsize).1
  simp only [hsocket, Option.isSome_some, if_true] at hkept
  rw [← List.weightSum_reverse, hkept]
  exact List.weightSum_trim_le _ _ _

/-- The backup of a writer of a run costs at most `limit`. -/
structure CostWithin (cost : Nat → Nat) (limit : Nat) (cipher : Cipher) (start : Nonce)
    (writer : BackedWriter) (events : List WriterEvent) : Prop where
  logs : Logs cipher start writer (acceptedLog events)
  within : backupCost cost writer.backup ≤ limit

namespace CostWithin

variable {cipher : Cipher} {start : Nonce} {writer' : BackedWriter} {events out : List WriterEvent}
  {op : WriterOp}

/-- The backup after a step, next to the step's condition. -/
theorem step (h : CostWithin cost limit cipher start writer events) (hlawful : cipher.Lawful)
    (hlive : ∀ packets, packets.weightSum Packet.length ≤ maxBackupBytes →
      backupCost cost packets ≤ limit)
    (hstep : writerMachine writer op = some (writer', out)) :
    (CostFits cost limit writer op → backupCost cost writer'.backup ≤ limit)
      ∧ (¬ CostFits cost limit writer op →
        writer'.socket = none ∧ limit < backupCost cost writer'.backup) := by
  cases writerStep_spec hstep with
  | write hwrites =>
      cases hwrites with
      | refused hrefuses =>
          refine ⟨fun _ => h.within, fun hnot => absurd ?_ hnot⟩
          intro _ haccepts
          rw [hrefuses] at haccepts
          exact absurd haccepts (by simp)
      | notEncrypted hrefuses hencrypt =>
          refine ⟨fun _ => h.within, fun hnot => absurd ?_ hnot⟩
          intro _ _ hflag
          have htotal : ∀ nonce plaintext, (writer.crypto.cipher.encrypt nonce plaintext).isSome := by
            rw [h.logs.cipher_eq]
            exact hlawful.encrypt_isSome
          obtain ⟨stored, hstored⟩ := Packet.encrypt_of_plain hflag htotal
          rw [hencrypt] at hstored
          exact absurd (Prod.mk.inj hstored).1 (by simp)
      | buffered hrefuses hencrypt hsocket =>
          obtain ⟨hseals, -⟩ := Packet.encrypt_eq_ok.mp hencrypt
          rw [h.logs.cipher_eq] at hseals
          have hlength := hseals.length_stored hlawful
          simp only [backupCost_push_of_none hsocket, hlength, BackedWriter.push_socket]
          constructor
          · intro hfits
            exact hfits hsocket hrefuses hseals.plain_flag
          · intro hnot
            refine ⟨hsocket, ?_⟩
            by_contra hsmall
            exact hnot fun _ _ _ => Nat.not_lt.mp hsmall
      | sent hencrypt hsocket hall =>
          refine ⟨fun _ => hlive _ (weightSum_push_of_some hsocket _ _ h.logs.retains.backupSize_eq),
            fun hnot => absurd ?_ hnot⟩
          intro hnone
          rw [hsocket] at hnone
          exact absurd hnone (by simp)
      | @broken stored crypto _ _ _ hencrypt hsocket hfail =>
          refine ⟨fun _ => hlive _ (weightSum_push_of_some hsocket crypto stored
            h.logs.retains.backupSize_eq), fun hnot => absurd ?_ hnot⟩
          intro hnone
          rw [hsocket] at hnone
          exact absurd hnone (by simp)
  | invalidateSocket => exact ⟨fun _ => h.within, fun hnot => absurd trivial hnot⟩
  | recover n => exact ⟨fun _ => h.within, fun hnot => absurd trivial hnot⟩
  | revive socket => exact ⟨fun _ => h.within, fun hnot => absurd trivial hnot⟩

end CostWithin

/-- In every state of a run a property holds that says no more than the limit and, without a socket, no
less, if and only if every packet accepted without a socket fits beside the backup that was there. -/
theorem always_iff_costFits {crypto : CryptoHandler} (hlawful : crypto.cipher.Lawful)
    (hlive : ∀ packets, packets.weightSum Packet.length ≤ maxBackupBytes →
      backupCost cost packets ≤ limit)
    {P : BackedWriter → List WriterEvent → Prop}
    (hP : ∀ {writer events}, CostWithin cost limit crypto.cipher crypto.nonce writer events →
      P writer events)
    (hover : ∀ {writer events}, Logs crypto.cipher crypto.nonce writer (acceptedLog events) →
      writer.socket = none → limit < backupCost cost writer.backup → ¬ P writer events)
    (socket : TcpStream) (ops : List WriterOp) :
    writerMachine.Always P (BackedWriter.new crypto socket) ops ↔
      writerMachine.Along (CostFits cost limit) (BackedWriter.new crypto socket) ops := by
  have hlogs : ∀ {writer before op writer' out},
      CostWithin cost limit crypto.cipher crypto.nonce writer before →
      writerMachine writer op = some (writer', out) →
      Logs crypto.cipher crypto.nonce writer' (acceptedLog (before ++ out)) :=
    fun h hstep => logs_of_run hlawful.encrypt_isSome _ h.logs (writerMachine.run_singleton.mpr hstep)
  apply writerMachine.always_iff_along (J := CostWithin cost limit crypto.cipher crypto.nonce)
  · intro writer before op writer' out h hfits hstep
    exact ⟨hlogs h hstep, (h.step hlawful hlive hstep).1 hfits⟩
  · exact hP
  · intro writer before op writer' out h hnot hstep
    obtain ⟨hsocket, hcost⟩ := (h.step hlawful hlive hstep).2 hnot
    exact hover (hlogs h hstep) hsocket hcost
  · exact ⟨.new crypto socket, Nat.zero_le _⟩

end EternalTerminal
