import EternalTerminal.Packet

/-!
# The two halves of a TCP socket (`backed.rs`, `packet.rs`)

A call on a non-blocking socket is given a schedule: the answers its successive `write` or `read`
system calls get. A schedule that runs out stands for a socket that is broken from then on (writing)
or that has nothing more to give (reading), so every terminating call is one of some finite schedule.
-/

namespace EternalTerminal

/-- The handle of a `TcpStream`: which connection it belongs to. -/
structure TcpStream where
  connection : Nat
  deriving DecidableEq, Repr

/-- What one `read` or `write` system call answers: a byte count or an error. -/
abbrev IoResult := Except ErrorKind Nat

def isTransient (e : ErrorKind) : Bool := e = .wouldBlock || e = .timedOut

/-- `write_all_retry`, with the bytes the socket took in either case. -/
def writeAllRetry : Bytes → List IoResult → Except ErrorKind Unit × Bytes
  | [], _ => (.ok (), [])
  | _ :: _, [] => (.error .other, [])
  | _ :: _, .ok 0 :: _ => (.error .writeZero, [])
  | b :: data, .ok (n + 1) :: results =>
    let (outcome, sent) := writeAllRetry ((b :: data).drop (n + 1)) results
    (outcome, (b :: data).take (n + 1) ++ sent)
  | b :: data, .error e :: results =>
    if isTransient e then writeAllRetry (b :: data) results
    else if e = .interrupted then writeAllRetry (b :: data) results
    else (.error e, [])

theorem writeAllRetry_sent (data : Bytes) (results : List IoResult) :
    (writeAllRetry data results).2 <+: data
      ∧ ((writeAllRetry data results).1 = .ok () ↔ (writeAllRetry data results).2 = data) := by
  induction results generalizing data with
  | nil => cases data <;> simp [writeAllRetry]
  | cons r results ih =>
      match data, r with
      | [], _ => simp [writeAllRetry]
      | _ :: _, .ok 0 => simp [writeAllRetry]
      | b :: data, .ok (n + 1) =>
          obtain ⟨hpre, hwhole⟩ := ih ((b :: data).drop (n + 1))
          have hsplit := List.take_append_drop (n + 1) (b :: data)
          simp only [writeAllRetry]
          refine ⟨?_, hwhole.trans ⟨fun h => by rw [h, hsplit], fun h => ?_⟩⟩
          · conv_rhs => rw [← hsplit]
            exact (List.prefix_append_right_inj _).mpr hpre
          · exact List.append_cancel_left (h.trans hsplit.symm)
      | b :: data, .error e =>
          simp only [writeAllRetry]
          split_ifs
          · exact ih _
          · exact ih _
          · simp

/-- One `read` into a buffer of `need` bytes, with `incoming` delivered and not yet read. A count of
zero is the end of the stream; a socket without data cannot answer with bytes and blocks instead. -/
def readSome (incoming : Bytes) (need : Nat) : IoResult → Except ErrorKind Bytes
  | .error e => .error e
  | .ok 0 => .ok []
  | .ok (n + 1) => if incoming = [] then .error .wouldBlock else .ok (incoming.take (min (n + 1) need))

theorem readSome_prefix {incoming chunk : Bytes} {need : Nat} {r : IoResult}
    (h : readSome incoming need r = .ok chunk) : chunk <+: incoming ∧ chunk.length ≤ need := by
  match r with
  | .error e => simp [readSome] at h
  | .ok 0 =>
      simp only [readSome, Except.ok.injEq] at h
      subst h
      simp
  | .ok (n + 1) =>
      simp only [readSome] at h
      split_ifs at h
      simp only [Except.ok.injEq] at h
      subst h
      refine ⟨List.take_prefix _ _, ?_⟩
      simp only [List.length_take]
      omega

/-- The errors a read loop gets from its socket, as opposed to those of a packet. -/
def Error.OfSocket : Error → Prop
  | .msg text => text = "connection closed"
  | .io _ => True
  | .crypto _ => False

/-- How a read loop ends: the buffer is full, there is nothing to read now, or the read failed. -/
inductive FillResult where
  | full
  | pending
  | failed (e : Error)
  deriving DecidableEq, Repr

structure FillOutput where
  result : FillResult
  buffer : Bytes
  incoming : Bytes
  results : List IoResult

/-- The two loops of `BackedReader::read`: read until the buffer holds `target` bytes. -/
def fill (target : Nat) (buffer incoming : Bytes) : List IoResult → FillOutput
  | [] =>
    if buffer.length < target then ⟨.pending, buffer, incoming, []⟩
    else ⟨.full, buffer, incoming, []⟩
  | r :: results =>
    if buffer.length < target then
      match readSome incoming (target - buffer.length) r with
      | .ok [] => ⟨.failed (.msg "connection closed"), buffer, incoming, results⟩
      | .ok chunk => fill target (buffer ++ chunk) (incoming.drop chunk.length) results
      | .error e =>
        if isTransient e then ⟨.pending, buffer, incoming, results⟩
        else if e = .interrupted then fill target buffer incoming results
        else ⟨.failed (.io e), buffer, incoming, results⟩
    else ⟨.full, buffer, incoming, r :: results⟩

/-- Whatever the schedule, the loop moves bytes from the socket to the buffer in order, never past
the target, and it ends full exactly when the target is reached. -/
structure FillSound (target : Nat) (buffer incoming : Bytes) (out : FillOutput) : Prop where
  stream : out.buffer ++ out.incoming = buffer ++ incoming
  grows : buffer <+: out.buffer
  bounded : out.buffer.length ≤ max target buffer.length
  full_iff : out.result = .full ↔ target ≤ out.buffer.length
  failed : ∀ e, out.result = .failed e → e.OfSocket

theorem FillSound.stop {target : Nat} {buffer incoming : Bytes} {result : FillResult}
    {rest : List IoResult} (h : result = .full ↔ target ≤ buffer.length)
    (hfailed : ∀ e, result = .failed e → e.OfSocket) :
    FillSound target buffer incoming ⟨result, buffer, incoming, rest⟩ :=
  ⟨rfl, List.prefix_rfl, le_max_right _ _, h, hfailed⟩

theorem FillSound.after_chunk {target : Nat} {buffer chunk rest : Bytes} {out : FillOutput}
    (hneed : chunk.length ≤ target - buffer.length)
    (h : FillSound target (buffer ++ chunk) rest out) :
    FillSound target buffer (chunk ++ rest) out := by
  refine ⟨by rw [h.stream, List.append_assoc], (List.prefix_append _ _).trans h.grows, ?_,
    h.full_iff, h.failed⟩
  have hbound := h.bounded
  simp only [List.length_append] at hbound
  omega

theorem fill_sound (target : Nat) (buffer incoming : Bytes) (results : List IoResult) :
    FillSound target buffer incoming (fill target buffer incoming results) := by
  induction results generalizing buffer incoming with
  | nil =>
      simp only [fill]
      split_ifs with hshort
      · exact .stop (by simp; omega) (by simp [Error.OfSocket])
      · exact .stop (by simp; omega) (by simp [Error.OfSocket])
  | cons r results ih =>
      simp only [fill]
      split_ifs with hshort
      · rcases hread : readSome incoming (target - buffer.length) r with e | chunk
        · simp only
          split_ifs
          · exact .stop (by simp; omega) (by simp [Error.OfSocket])
          · exact ih buffer incoming
          · exact .stop (by simp; omega) (by simp [Error.OfSocket])
        · obtain ⟨⟨rest, rfl⟩, hneed⟩ := readSome_prefix hread
          cases chunk with
          | nil => exact .stop (by simp; omega) (by simp [Error.OfSocket])
          | cons b chunk =>
              simp only [List.drop_left]
              exact .after_chunk hneed (ih (buffer ++ b :: chunk) rest)
      · exact .stop (by simp; omega) (by simp [Error.OfSocket])

end EternalTerminal
