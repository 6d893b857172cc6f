import EternalTerminal.Backed.Reader

/-!
# Frames on a stream

A frame announces its own length, so the first frame of a stream is found from any prefix of the
stream that contains it. What a log of packets is on a connection is their frames one after another.
-/

namespace EternalTerminal

@[simp] theorem length_toBeBytes (n : Nat) : (toBeBytes n).length = 4 := by
  simp [toBeBytes]

theorem fromBeBytes_toBeBytes {n : Nat} (h : n < 2 ^ 32) : fromBeBytes (toBeBytes n) = n := by
  rw [fromBeBytes, toBeBytes, List.reverse_reverse]
  exact leValue_leBytes_of_lt h

@[simp] theorem length_frame (serialized : Bytes) :
    (frame serialized).length = 4 + serialized.length := by
  simp [frame]

namespace BackedReader

theorem frameTotal_frame {serialized : Bytes} (h : serialized.length < 2 ^ 32) (rest : Bytes) :
    frameTotal (frame serialized ++ rest) = (frame serialized).length := by
  have hheader : (frame serialized ++ rest).take 4 = toBeBytes serialized.length := by
    rw [frame, List.append_assoc]
    exact List.take_left' (length_toBeBytes _)
  rw [frameTotal, hheader, fromBeBytes_toBeBytes h, length_frame]

theorem drop_frame (serialized : Bytes) : (frame serialized).drop 4 = serialized :=
  List.drop_left' (length_toBeBytes _)

/-- The frame at the front of a stream is the one a buffer that holds a frame starts with. -/
theorem frameTotal_of_holdsFrame {buffer serialized rest : Bytes}
    (hlength : serialized.length < 2 ^ 32) (hpre : buffer <+: frame serialized ++ rest)
    (hholds : HoldsFrame buffer) : frameTotal buffer = (frame serialized).length := by
  rw [← frameTotal_of_prefix hpre hholds.1, frameTotal_frame hlength]

theorem holdsFrame_frame {serialized : Bytes} (h : serialized.length < 2 ^ 32) (rest : Bytes) :
    HoldsFrame (frame serialized ++ rest) := by
  refine ⟨?_, ?_⟩
  · rw [List.length_append, length_frame]
    omega
  · rw [frameTotal_frame h, List.length_append]
    omega

/-! ### A frame that is there is read -/

theorem fill_full {target : Nat} {buffer incoming : Bytes} {results : List IoResult}
    (h : target ≤ buffer.length) :
    fill target buffer incoming results = ⟨.full, buffer, incoming, results⟩ := by
  cases results with
  | nil => simp [fill, Nat.not_lt.mpr h]
  | cons r results => simp [fill, Nat.not_lt.mpr h]

theorem fill_once {target count : Nat} {buffer chunk rest : Bytes} {results : List IoResult}
    (htarget : target = buffer.length + chunk.length) (hcount : count = chunk.length) :
    fill target buffer (chunk ++ rest) (.ok count :: results) =
      ⟨.full, buffer ++ chunk, rest, if chunk = [] then .ok count :: results else results⟩ := by
  subst htarget hcount
  cases chunk with
  | nil =>
      simp only [List.length_nil, Nat.add_zero, List.nil_append, List.append_nil, if_true]
      exact fill_full le_rfl
  | cons b chunk =>
      have hneed : buffer.length + (b :: chunk).length - buffer.length = (b :: chunk).length := by
        omega
      have hread : readSome ((b :: chunk) ++ rest) (b :: chunk).length (.ok (b :: chunk).length) =
          .ok (b :: chunk) := by
        simp [readSome]
      have hshort : buffer.length < buffer.length + (b :: chunk).length := by simp
      have hfull : fill (buffer.length + (b :: chunk).length) (buffer ++ b :: chunk) rest results =
          ⟨.full, buffer ++ b :: chunk, rest, results⟩ := fill_full (by simp)
      simp only [fill, hshort, if_true, hneed, hread, List.drop_left, hfull, reduceCtorEq, if_false]

/-- A whole frame on the socket is read by two system calls that are given all they ask for. -/
theorem read_frame_available {reader : BackedReader} {socket : TcpStream} {serialized : Bytes}
    (hqueue : reader.localBuffer = []) (hsocket : reader.socket = some socket)
    (hbuffer : reader.partialFrame = []) (hlength : serialized.length < 2 ^ 32) :
    (reader.read (frame serialized) [.ok 4, .ok serialized.length]).result =
        (reader.readFrame serialized).1
      ∧ (reader.read (frame serialized) [.ok 4, .ok serialized.length]).reader =
        (reader.readFrame serialized).2 := by
  have hheader : fill 4 [] (frame serialized) [.ok 4, .ok serialized.length] =
      ⟨.full, toBeBytes serialized.length, serialized, [.ok serialized.length]⟩ := by
    have hne : toBeBytes serialized.length ≠ [] := by
      intro hnil
      have := length_toBeBytes serialized.length
      simp [hnil] at this
    rw [frame, fill_once (by simp) (by simp), if_neg hne, List.nil_append]
  have htotal : 4 + fromBeBytes ((toBeBytes serialized.length).take 4) = 4 + serialized.length := by
    rw [List.take_of_length_le (by simp), fromBeBytes_toBeBytes hlength]
  have hbody : fill (4 + serialized.length) (toBeBytes serialized.length) serialized
      [.ok serialized.length] = ⟨.full, frame serialized, [],
        if serialized = [] then [.ok serialized.length] else []⟩ := by
    have hall : fill (4 + serialized.length) (toBeBytes serialized.length) (serialized ++ [])
        [.ok serialized.length] = ⟨.full, toBeBytes serialized.length ++ serialized, [],
          if serialized = [] then [.ok serialized.length] else []⟩ := fill_once (by simp) rfl
    rwa [List.append_nil] at hall
  have hserialized : ((frame serialized).take (4 + serialized.length)).drop 4 = serialized := by
    rw [List.take_of_length_le (by simp), drop_frame]
  simp only [read, hqueue, hsocket, readLive, hbuffer, hheader, if_true, htotal, hbody, hserialized,
    and_self]

end BackedReader

/-! ### The frames of a log -/

/-- The bytes that these packets are on a connection. -/
def frames (entries : List Accepted) : Bytes := entries.flatMap fun entry => frame entry.stored.serialize

@[simp] theorem frames_nil : frames [] = [] := rfl

@[simp] theorem frames_cons (entry : Accepted) (entries : List Accepted) :
    frames (entry :: entries) = frame entry.stored.serialize ++ frames entries := rfl

@[simp] theorem frames_append (first second : List Accepted) :
    frames (first ++ second) = frames first ++ frames second := List.flatMap_append

/-- Every packet is short enough for its length header. -/
def Short (log : List Accepted) : Prop := ∀ entry ∈ log, entry.stored.serialize.length < 2 ^ 32

theorem frame_of_holdsFrame {entries : List Accepted} {buffer : Bytes} (hshort : Short entries)
    (hpre : buffer <+: frames entries) (hholds : BackedReader.HoldsFrame buffer)
    (hexact : buffer.length = BackedReader.frameTotal buffer) :
    ∃ entry later, entries = entry :: later ∧ buffer = frame entry.stored.serialize := by
  cases entries with
  | nil =>
      rw [frames_nil, List.prefix_nil] at hpre
      subst hpre
      exact absurd hholds.1 (by simp)
  | cons entry later =>
      have hlength := hshort entry List.mem_cons_self
      rw [frames_cons] at hpre
      have htotal := BackedReader.frameTotal_of_holdsFrame hlength hpre hholds
      have hwhole : frame entry.stored.serialize <+: frame entry.stored.serialize ++ frames later :=
        List.prefix_append _ _
      have hsame := List.prefix_of_prefix_length_le hpre hwhole (by omega)
      exact ⟨entry, later, rfl, hsame.eq_of_length (by omega)⟩

theorem frames_eq_nil {entries : List Accepted} (h : frames entries = []) : entries = [] := by
  cases entries with
  | nil => rfl
  | cons entry later =>
      have hlength := congrArg List.length h
      simp [frame, toBeBytes] at hlength

theorem eq_nil_of_not_holdsFrame {entries : List Accepted} (hshort : Short entries)
    (hopen : ¬ BackedReader.HoldsFrame (frames entries)) : entries = [] := by
  cases entries with
  | nil => rfl
  | cons entry later =>
      exact absurd (BackedReader.holdsFrame_frame (hshort entry List.mem_cons_self) _) hopen

theorem BackedWriter.Writes.lost {writer : BackedWriter} {packet : Packet} {results : List IoResult}
    {out : WriteOutput} (h : writer.Writes packet results out) {lost : Bytes}
    (hlost : writer.socket ≠ none → lost = []) (nonce : Nonce) :
    ∃ lost', out.sent ++ lost' =
        lost ++ frames (out.pushed.toList.map fun stored => ⟨nonce, packet, stored⟩)
      ∧ (out.writer.socket ≠ none → lost' = []) := by
  cases h with
  | refused hrefuses => exact ⟨lost, by simp, hlost⟩
  | notEncrypted hrefuses hencrypt => exact ⟨lost, by simp, hlost⟩
  | buffered hrefuses hencrypt hsocket =>
      exact ⟨_, List.nil_append _, fun hlive => absurd hsocket hlive⟩
  | sent hencrypt hsocket hall =>
      obtain rfl := hlost (by simp [hsocket])
      exact ⟨[], by simp, fun _ => rfl⟩
  | @broken stored _ _ _ _ hencrypt hsocket hfail =>
      obtain rfl := hlost (by simp [hsocket])
      obtain ⟨rest, hrest⟩ := (writeAllRetry_sent (frame stored.serialize) results).1
      rw [hfail] at hrest
      exact ⟨rest, by simp [hrest], fun hlive => absurd rfl hlive⟩

end EternalTerminal
