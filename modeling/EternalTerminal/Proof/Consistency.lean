import EternalTerminal.Connection.Client
import EternalTerminal.Proof.Seal

/-!
# The flags, the sockets and the reconnect thread

The session thread and the reconnect threads share two flags and two sockets without a common lock.
Each place of the session thread has an assertion about them (`Asserted`): it follows from the
assertion before when the session thread steps, and a step of a reconnect thread cannot disturb it.
-/

namespace EternalTerminal

/-- The reconnect thread has not ended. -/
def Running (threads : List ReconnectPc) (i : Nat) : Prop :=
  ∃ pc, threads[i]? = some pc ∧ pc ≠ .finished

namespace Shared

/-- Both sockets are present. -/
def Connected (shared : Shared) : Prop := shared.readerSocket.isSome ∧ shared.writerSocket.isSome

end Shared

/-- `handle` is that of the only reconnect thread that may still run; until that has ended the flag is
down and reader and writer exist. -/
structure Owned (shared : Shared) (threads : List ReconnectPc) (handle : Option Nat) : Prop where
  only : ∀ i, Running threads i → handle = some i
  dead : ∀ i, Running threads i → shared.socketAlive = false
  present : shared.shuttingDown = false ∨ (∃ i, Running threads i) →
    shared.reader.isSome ∧ shared.writer.isSome

/-- The flags tell the truth: `socket_alive` about the sockets, and as long as neither flag is up a
reconnect thread is at work. -/
structure Settled (shared : Shared) (threads : List ReconnectPc) : Prop where
  alive : shared.socketAlive = true → shared.Connected
  reader_revived : ∀ (i : Nat) (pc : ReconnectPc), threads[i]? = some pc → pc.ReaderRevived →
    shared.readerSocket.isSome
  recovered : ∀ i : Nat, threads[i]? = some ReconnectPc.recovered → shared.Connected
  watched : shared.socketAlive = false → shared.shuttingDown = false → ∃ i, Running threads i

namespace SessionPc

/-- Not inside `close_and_maybe_reconnect` or `shutdown`. A failed read or write enters the former in
the step in which it fails. -/
def Outside : SessionPc → Prop
  | .closing _ _ => False
  | .shutdown _ => False
  | _ => True

instance : DecidablePred Outside
  | .closing _ _ => isFalse id
  | .shutdown _ => isFalse id
  | .idle => isTrue trivial
  | .writeCheck _ => isTrue trivial
  | .writeLocked _ => isTrue trivial
  | .readLocked => isTrue trivial

end SessionPc

namespace Client

/-- What holds when the session thread is at this place. -/
def Asserted (client : Client) : SessionPc → Prop
  | .closing .takeHandle _ => Owned client.shared client.threads client.reconnectThread
  | .closing (.joining thread) _ =>
    client.reconnectThread = none ∧ Owned client.shared client.threads (some thread)
  | .closing .maybeSpawn _ =>
    client.reconnectThread = none ∧ Owned client.shared client.threads none
      ∧ client.shared.socketAlive = false
  | .closing (.storeHandle thread) _ =>
    client.reconnectThread = none ∧ Owned client.shared client.threads (some thread)
      ∧ Settled client.shared client.threads
  | .closing _ _ => client.reconnectThread = none ∧ Owned client.shared client.threads none
  | .shutdown .setFlag => Owned client.shared client.threads client.reconnectThread
  | .shutdown .takeHandle =>
    Owned client.shared client.threads client.reconnectThread ∧ client.shared.shuttingDown = true
  | .shutdown (.joining thread) =>
    client.reconnectThread = none ∧ Owned client.shared client.threads (some thread)
      ∧ client.shared.shuttingDown = true
  | .shutdown _ =>
    client.reconnectThread = none ∧ Owned client.shared client.threads none
      ∧ client.shared.shuttingDown = true
  | _ => Owned client.shared client.threads client.reconnectThread
      ∧ Settled client.shared client.threads

def Consistent (client : Client) : Prop := client.Asserted client.session

end Client

/-! ### Steps of a reconnect thread -/

namespace Reconnects

variable {shared : Shared} {pc : ReconnectPc} {out : ReconnectOutput}

theorem ne_finished (h : Reconnects shared pc out) : pc ≠ .finished := by
  cases h with
  | leaves htrying hflag => exact htrying.1
  | fails e htrying => exact htrying.1
  | moves htrying htrying' hsocket hsent hheld => exact htrying.1
  | rejects htrying => exact htrying.1
  | opens => nofun
  | recovers hentries => nofun
  | sends => nofun
  | revivesReader => nofun
  | revivesWriter => nofun
  | succeeds => nofun
  | ends => nofun

/-- The step that raises `socket_alive` is the last one of its thread. -/
theorem alive (h : Reconnects shared pc out) (halive : out.shared.socketAlive = true) :
    shared.socketAlive = true
      ∨ (pc = .recovered ∧ out = ⟨{ shared with socketAlive := true }, .finished, []⟩) := by
  cases h with
  | succeeds => exact .inr ⟨rfl, rfl⟩
  | _ => exact .inl halive

theorem shuttingDown (h : Reconnects shared pc out) (hshut : shared.shuttingDown = true) :
    out.shared.shuttingDown = true := by
  cases h with
  | ends => rfl
  | _ => exact hshut

theorem readerRevived (h : Reconnects shared pc out) (hrevived : out.pc.ReaderRevived) :
    ∃ socket catchup, out.shared.reader =
      shared.reader.map fun reader => reader.revive socket catchup := by
  cases h with
  | revivesReader => exact ⟨_, _, rfl⟩
  | moves htrying htrying' hsocket hsent hheld => exact absurd hrevived htrying'.2.2
  | _ => exact absurd hrevived id

theorem recovered (h : Reconnects shared pc out) (hrecovered : out.pc = .recovered) :
    pc.ReaderRevived ∧ ∃ socket, out.shared =
      { shared with writer := shared.writer.map fun writer => writer.revive socket } := by
  cases h with
  | revivesWriter => exact ⟨trivial, _, rfl⟩
  | moves htrying htrying' hsocket hsent hheld => exact absurd hrecovered htrying'.2.1
  | _ => exact absurd hrecovered nofun

theorem finished (h : Reconnects shared pc out) (hfinished : out.pc = .finished) :
    shared.socketAlive = true ∨ out.shared.shuttingDown = true ∨ out.shared.socketAlive = true := by
  cases h with
  | leaves htrying hflag => exact hflag.imp_right .inl
  | succeeds => exact .inr (.inr rfl)
  | ends => exact .inr (.inl rfl)
  | moves htrying htrying' hsocket hsent hheld => exact absurd hfinished htrying'.1
  | _ => exact absurd hfinished nofun

end Reconnects

theorem running_set {threads : List ReconnectPc} {i j : Nat} {pc : ReconnectPc}
    (h : Running (threads.set i pc) j) : (i = j ∧ pc ≠ .finished) ∨ (i ≠ j ∧ Running threads j) := by
  obtain ⟨pc', hpc', hrun⟩ := h
  rw [List.getElem?_set] at hpc'
  split_ifs at hpc' with hij hlt
  · obtain rfl := Option.some.inj hpc'
    exact .inl ⟨hij, hrun⟩
  · exact .inr ⟨hij, pc', hpc', hrun⟩

section Thread

variable {shared : Shared} {threads : List ReconnectPc} {handle : Option Nat} {i : Nat}
  {pc : ReconnectPc} {out : ReconnectOutput}

/-- Only the thread that steps can run afterwards, and only if it has not ended. -/
theorem Owned.running_step (h : Owned shared threads handle) (hpc : threads[i]? = some pc)
    (hstep : Reconnects shared pc out) {j : Nat} (hrun : Running (threads.set i out.pc) j) :
    j = i ∧ out.pc ≠ .finished := by
  obtain ⟨rfl, hne⟩ | ⟨hij, hrun⟩ := running_set hrun
  · exact ⟨rfl, hne⟩
  · have hi := h.only i ⟨pc, hpc, hstep.ne_finished⟩
    rw [h.only j hrun, Option.some.injEq] at hi
    exact absurd hi.symm hij

theorem Owned.thread (h : Owned shared threads handle) (hpc : threads[i]? = some pc)
    (hstep : Reconnects shared pc out) : Owned out.shared (threads.set i out.pc) handle := by
  have hrunning : Running threads i := ⟨pc, hpc, hstep.ne_finished⟩
  have hdead := h.dead i hrunning
  have hpresent := h.present (.inr ⟨i, hrunning⟩)
  refine ⟨fun j hrun => ?_, fun j hrun => ?_, fun _ => ?_⟩
  · rw [(h.running_step hpc hstep hrun).1]
    exact h.only i hrunning
  · have hne := (h.running_step hpc hstep hrun).2
    by_contra halive
    rw [Bool.not_eq_false] at halive
    obtain halive | ⟨rfl, rfl⟩ := hstep.alive halive
    · rw [hdead] at halive
      exact absurd halive (by simp)
    · exact hne rfl
  · cases hstep with
    | revivesReader => simpa using hpresent
    | revivesWriter => simpa using hpresent
    | _ => exact hpresent

theorem Settled.thread (hsettled : Settled shared threads) (h : Owned shared threads handle)
    (hpc : threads[i]? = some pc) (hstep : Reconnects shared pc out) :
    Settled out.shared (threads.set i out.pc) := by
  have hrunning : Running threads i := ⟨pc, hpc, hstep.ne_finished⟩
  have hdead := h.dead i hrunning
  obtain ⟨hreader, hwriter⟩ := h.present (.inr ⟨i, hrunning⟩)
  have hlt : i < threads.length := (List.getElem?_eq_some_iff.mp hpc).1
  -- a thread that has anything to say about the sockets is the one that stepped
  have hself : ∀ (j : Nat) (pc' : ReconnectPc), (threads.set i out.pc)[j]? = some pc' →
      pc' ≠ .finished → out.pc = pc' := by
    intro j pc' hpc' hne
    obtain ⟨rfl, -⟩ := h.running_step hpc hstep ⟨pc', hpc', hne⟩
    rw [List.getElem?_set_self hlt] at hpc'
    exact Option.some.inj hpc'
  refine ⟨fun halive => ?_, fun j pc' hpc' hrevived => ?_, fun j hpc' => ?_, fun hlow hopen => ?_⟩
  · obtain halive | ⟨rfl, rfl⟩ := hstep.alive halive
    · rw [hdead] at halive
      exact absurd halive (by simp)
    · exact hsettled.recovered i hpc
  · obtain rfl := hself j pc' hpc' (by rintro rfl; exact hrevived)
    obtain ⟨socket, catchup, hrevive⟩ := hstep.readerRevived hrevived
    obtain ⟨reader, hsome⟩ := Option.isSome_iff_exists.mp hreader
    simp [Shared.readerSocket, hrevive, hsome, BackedReader.revive]
  · obtain ⟨hrevived, socket, hrevive⟩ := hstep.recovered (hself j _ hpc' nofun)
    obtain ⟨writer, hsome⟩ := Option.isSome_iff_exists.mp hwriter
    rw [hrevive]
    refine ⟨hsettled.reader_revived i pc hpc hrevived, ?_⟩
    simp [Shared.writerSocket, hsome, BackedWriter.revive]
  · refine ⟨i, out.pc, List.getElem?_set_self hlt, fun hfinished => ?_⟩
    obtain halive | hshut | halive' := hstep.finished hfinished
    · rw [hdead] at halive
      exact absurd halive (by simp)
    · rw [hopen] at hshut
      exact absurd hshut (by simp)
    · rw [hlow] at halive'
      exact absurd halive' (by simp)

end Thread

/-! ### Steps of the session thread -/

theorem Owned.of_shared {shared shared' : Shared} {threads : List ReconnectPc} {handle : Option Nat}
    (h : Owned shared threads handle) (halive : shared'.socketAlive = shared.socketAlive)
    (hshut : shared'.shuttingDown = shared.shuttingDown)
    (hreader : shared'.reader.isSome = shared.reader.isSome)
    (hwriter : shared'.writer.isSome = shared.writer.isSome) : Owned shared' threads handle := by
  refine ⟨h.only, ?_, ?_⟩
  · rw [halive]
    exact h.dead
  · rw [hshut, hreader, hwriter]
    exact h.present

theorem Settled.of_shared {shared shared' : Shared} {threads : List ReconnectPc}
    (h : Settled shared threads) (halive : shared'.socketAlive = shared.socketAlive)
    (hshut : shared'.shuttingDown = shared.shuttingDown)
    (hreader : shared'.readerSocket = shared.readerSocket)
    (hwriter : shared'.writerSocket = shared.writerSocket) : Settled shared' threads := by
  have hconnected : shared'.Connected ↔ shared.Connected := by
    rw [Shared.Connected, Shared.Connected, hreader, hwriter]
  refine ⟨?_, ?_, ?_, ?_⟩
  · rw [halive, hconnected]
    exact h.alive
  · rw [hreader]
    exact h.reader_revived
  · rw [hconnected]
    exact h.recovered
  · rw [halive, hshut]
    exact h.watched

theorem Owned.joined {shared : Shared} {threads : List ReconnectPc} {thread : Nat}
    (h : Owned shared threads (some thread)) (hfinished : threads[thread]? = some .finished) :
    Owned shared threads none := by
  have hnone : ∀ i, ¬ Running threads i := by
    rintro i hrun
    obtain rfl := Option.some.inj (h.only i hrun)
    obtain ⟨pc, hpc, hne⟩ := hrun
    rw [hfinished] at hpc
    exact hne (Option.some.inj hpc).symm
  exact ⟨fun i hrun => absurd hrun (hnone i), h.dead, h.present⟩

theorem Owned.not_running {shared : Shared} {threads : List ReconnectPc}
    (h : Owned shared threads none) (i : Nat) : ¬ Running threads i :=
  fun hrun => absurd (h.only i hrun) nofun

theorem Owned.shut {shared shared' : Shared} {threads : List ReconnectPc}
    (h : Owned shared threads none) (hshut : shared.shuttingDown = true)
    (hsame : shared'.shuttingDown = shared.shuttingDown) : Owned shared' threads none := by
  refine ⟨h.only, fun i hrun => absurd hrun (h.not_running i), ?_⟩
  rintro (hopen | ⟨i, hrun⟩)
  · rw [hsame, hshut] at hopen
    exact absurd hopen (by simp)
  · exact absurd hrun (h.not_running i)

theorem Settled.of_not_running {shared : Shared} {threads : List ReconnectPc}
    (hnone : ∀ i, ¬ Running threads i) (hdead : shared.socketAlive = false)
    (hshut : shared.shuttingDown = true) : Settled shared threads := by
  refine ⟨fun halive => ?_, fun i pc hpc hrevived => ?_, fun i hpc => ?_, fun _ hopen => ?_⟩
  · rw [hdead] at halive
    exact absurd halive (by simp)
  · exact absurd ⟨pc, hpc, by rintro rfl; exact hrevived⟩ (hnone i)
  · exact absurd ⟨_, hpc, nofun⟩ (hnone i)
  · rw [hopen] at hshut
    exact absurd hshut (by simp)

section Spawn

variable {threads : List ReconnectPc} (hnone : ∀ i, ¬ Running threads i)
include hnone

theorem running_spawn {i : Nat} (hrun : Running (threads ++ [.loopHead]) i) : i = threads.length := by
  obtain ⟨pc, hpc, hne⟩ := hrun
  rcases Nat.lt_or_ge i threads.length with hlt | hge
  · rw [List.getElem?_append_left hlt] at hpc
    exact absurd ⟨pc, hpc, hne⟩ (hnone i)
  · have hlt := (List.getElem?_eq_some_iff.mp hpc).1
    rw [List.length_append, List.length_singleton] at hlt
    omega

theorem loopHead_of_running_spawn {i : Nat} {pc : ReconnectPc}
    (hpc : (threads ++ [.loopHead])[i]? = some pc) (hne : pc ≠ .finished) : pc = .loopHead := by
  obtain rfl := running_spawn hnone ⟨pc, hpc, hne⟩
  rw [List.getElem?_concat_length] at hpc
  exact (Option.some.inj hpc).symm

theorem Owned.spawn {shared : Shared} (hdead : shared.socketAlive = false)
    (hpresent : shared.reader.isSome ∧ shared.writer.isSome) :
    Owned shared (threads ++ [.loopHead]) (some threads.length) :=
  ⟨fun _ hrun => (running_spawn hnone hrun).symm ▸ rfl, fun _ _ => hdead, fun _ => hpresent⟩

theorem Settled.spawn {shared : Shared} (hdead : shared.socketAlive = false) :
    Settled shared (threads ++ [.loopHead]) := by
  refine ⟨fun halive => ?_, fun i pc hpc hrevived => ?_, fun i hpc => ?_, fun _ _ => ?_⟩
  · rw [hdead] at halive
    exact absurd halive (by simp)
  · obtain rfl := loopHead_of_running_spawn hnone hpc (by rintro rfl; exact hrevived)
    exact absurd hrevived id
  · exact absurd (loopHead_of_running_spawn hnone hpc nofun) nofun
  · exact ⟨threads.length, .loopHead, List.getElem?_concat_length, nofun⟩

end Spawn

namespace Client

variable {client next : Client}

theorem asserted_returnTo (caller : Caller) :
    client.Asserted (returnTo caller) ↔
      Owned client.shared client.threads client.reconnectThread
        ∧ Settled client.shared client.threads := by
  cases caller <;> rfl

theorem closeStep_consistent {caller : Caller} {stage : CloseStage}
    (h : client.Asserted (.closing stage caller)) (hstep : client.closeStep caller stage = some next) :
    next.Consistent := by
  cases stage with
  | takeHandle =>
      cases hhandle : client.reconnectThread with
      | none =>
          simp only [closeStep, hhandle, Option.some.injEq] at hstep
          subst hstep
          refine ⟨rfl, ?_⟩
          simpa only [Asserted, hhandle] using h
      | some thread =>
          simp only [closeStep, hhandle, Option.some.injEq] at hstep
          subst hstep
          refine ⟨rfl, ?_⟩
          simpa only [Asserted, hhandle] using h
  | joining thread =>
      obtain ⟨hhandle, howned⟩ := h
      simp only [closeStep] at hstep
      split_ifs at hstep with hfinished
      obtain rfl := Option.some.inj hstep
      exact ⟨hhandle, howned.joined hfinished⟩
  | invalidateReader =>
      obtain ⟨hhandle, howned⟩ := h
      obtain rfl := Option.some.inj hstep
      exact ⟨hhandle, howned.of_shared rfl rfl (by simp) rfl⟩
  | invalidateWriter =>
      obtain ⟨hhandle, howned⟩ := h
      obtain rfl := Option.some.inj hstep
      exact ⟨hhandle, howned.of_shared rfl rfl rfl (by simp)⟩
  | clearAlive =>
      obtain ⟨hhandle, howned⟩ := h
      obtain rfl := Option.some.inj hstep
      exact ⟨hhandle, ⟨howned.only, fun _ _ => rfl, howned.present⟩, rfl⟩
  | maybeSpawn =>
      obtain ⟨hhandle, howned, hdead⟩ := h
      simp only [closeStep] at hstep
      split_ifs at hstep with hshut
      · obtain rfl := Option.some.inj hstep
        refine (asserted_returnTo caller).mpr ⟨?_, .of_not_running howned.not_running hdead hshut⟩
        rw [hhandle]
        exact howned
      · obtain rfl := Option.some.inj hstep
        rw [Bool.not_eq_true] at hshut
        exact ⟨hhandle, .spawn howned.not_running hdead (howned.present (.inl hshut)),
          .spawn howned.not_running hdead⟩
  | storeHandle thread =>
      obtain ⟨-, howned, hsettled⟩ := h
      obtain rfl := Option.some.inj hstep
      exact (asserted_returnTo caller).mpr ⟨howned, hsettled⟩

theorem shutdownStep_consistent {stage : ShutdownStage} (h : client.Asserted (.shutdown stage))
    (hstep : client.shutdownStep stage = some next) : next.Consistent := by
  cases stage with
  | setFlag =>
      obtain rfl := Option.some.inj hstep
      exact ⟨⟨h.only, h.dead, fun hrun => h.present (.inr (hrun.resolve_left nofun))⟩, rfl⟩
  | takeHandle =>
      obtain ⟨howned, hshut⟩ := h
      cases hhandle : client.reconnectThread with
      | none =>
          simp only [shutdownStep, hhandle, Option.some.injEq] at hstep
          subst hstep
          rw [hhandle] at howned
          exact ⟨rfl, howned, hshut⟩
      | some thread =>
          simp only [shutdownStep, hhandle, Option.some.injEq] at hstep
          subst hstep
          rw [hhandle] at howned
          exact ⟨rfl, howned, hshut⟩
  | joining thread =>
      obtain ⟨hhandle, howned, hshut⟩ := h
      simp only [shutdownStep] at hstep
      split_ifs at hstep with hfinished
      obtain rfl := Option.some.inj hstep
      exact ⟨hhandle, howned.joined hfinished, hshut⟩
  | clearReader =>
      obtain ⟨hhandle, howned, hshut⟩ := h
      obtain rfl := Option.some.inj hstep
      exact ⟨hhandle, howned.shut hshut rfl, hshut⟩
  | clearWriter =>
      obtain ⟨hhandle, howned, hshut⟩ := h
      obtain rfl := Option.some.inj hstep
      exact ⟨hhandle, howned.shut hshut rfl, hshut⟩
  | clearAlive =>
      obtain ⟨hhandle, howned, hshut⟩ := h
      obtain rfl := Option.some.inj hstep
      refine ⟨?_, .of_not_running howned.not_running rfl hshut⟩
      rw [hhandle]
      exact howned.shut hshut rfl

theorem write_consistent {writer : BackedWriter} {packet : Packet} {results : List IoResult}
    {out : WriteOutput} (howned : Owned client.shared client.threads client.reconnectThread)
    (hsettled : Settled client.shared client.threads) (hwriter : client.shared.writer = some writer)
    (hwrites : writer.Writes packet results out) :
    Consistent { client with
      shared := { client.shared with writer := some out.writer }
      session := (afterWrite packet out.state).1 } := by
  have howned' : Owned { client.shared with writer := some out.writer } client.threads
      client.reconnectThread := howned.of_shared rfl rfl rfl (by simp [hwriter])
  have hkept : out.state ≠ .wroteWithFailure →
      Settled { client.shared with writer := some out.writer } client.threads := by
    intro hstate
    refine hsettled.of_shared rfl rfl rfl ?_
    simp [Shared.writerSocket, hwriter, hwrites.socket_eq hstate]
  cases hstate : out.state with
  | success => exact ⟨howned', hkept (by simp [hstate])⟩
  | bufferedOnly => exact ⟨howned', hkept (by simp [hstate])⟩
  | wroteWithFailure => exact howned'
  | skipped => exact ⟨howned', hkept (by simp [hstate])⟩

theorem read_consistent {reader : BackedReader} {incoming : Bytes} {results : List IoResult}
    {out : ReadOutput} (howned : Owned client.shared client.threads client.reconnectThread)
    (hsettled : Settled client.shared client.threads) (hreader : client.shared.reader = some reader)
    (hreads : reader.Reads incoming results out) {session : SessionPc}
    (hsession : session = .idle ∨ session = .closing .takeHandle .other) :
    Consistent { client with
      shared := { client.shared with reader := some out.reader }, session } := by
  have howned' : Owned { client.shared with reader := some out.reader } client.threads
      client.reconnectThread := howned.of_shared rfl rfl (by simp [hreader]) rfl
  obtain rfl | rfl := hsession
  · refine ⟨howned', hsettled.of_shared rfl rfl ?_ rfl⟩
    simp [Shared.readerSocket, hreader, hreads.socket_eq]
  · exact howned'

theorem sessionSteps_consistent {session : SessionPc} {move : SessionMove}
    {events : List ClientEvent} (h : client.Asserted session)
    (hsteps : SessionSteps client session move next events) : next.Consistent := by
  cases hsteps with
  | called packet => exact h
  | reads => exact h
  | closes => exact h.1
  | shutsDown => exact h.1
  | givesUp hshut => exact h
  | locks => exact h
  | noWriter hwriter => exact h
  | writes hwriter hwrites => exact write_consistent h.1 h.2 hwriter hwrites
  | noReader hreader => exact h
  | read hreader hreads hsession => exact read_consistent h.1 h.2 hreader hreads hsession
  | closing hclose => exact closeStep_consistent h hclose
  | shutdown hshutdown => exact shutdownStep_consistent h hshutdown

/-- A reconnect thread disturbs no assertion. -/
theorem stepped_consistent {index : Nat} {pc : ReconnectPc} {out : ReconnectOutput}
    (h : client.Consistent) (hpc : client.threads[index]? = some pc)
    (hreconnects : Reconnects client.shared pc out) : (client.stepped index out).Consistent := by
  have hnone : ¬ Owned client.shared client.threads none :=
    fun howned => howned.not_running index ⟨pc, hpc, hreconnects.ne_finished⟩
  unfold Consistent at h ⊢
  change Asserted _ client.session
  generalize client.session = session at h ⊢
  cases session with
  | closing stage caller =>
      cases stage with
      | takeHandle => exact h.thread hpc hreconnects
      | joining thread => exact ⟨h.1, h.2.thread hpc hreconnects⟩
      | invalidateReader => exact absurd h.2 hnone
      | invalidateWriter => exact absurd h.2 hnone
      | clearAlive => exact absurd h.2 hnone
      | maybeSpawn => exact absurd h.2.1 hnone
      | storeHandle thread =>
          exact ⟨h.1, h.2.1.thread hpc hreconnects, h.2.2.thread h.2.1 hpc hreconnects⟩
  | shutdown stage =>
      cases stage with
      | setFlag => exact h.thread hpc hreconnects
      | takeHandle => exact ⟨h.1.thread hpc hreconnects, hreconnects.shuttingDown h.2⟩
      | joining thread =>
          exact ⟨h.1, h.2.1.thread hpc hreconnects, hreconnects.shuttingDown h.2.2⟩
      | clearReader => exact absurd h.2.1 hnone
      | clearWriter => exact absurd h.2.1 hnone
      | clearAlive => exact absurd h.2.1 hnone
  | idle => exact ⟨h.1.thread hpc hreconnects, h.2.thread h.1 hpc hreconnects⟩
  | writeCheck packet => exact ⟨h.1.thread hpc hreconnects, h.2.thread h.1 hpc hreconnects⟩
  | writeLocked packet => exact ⟨h.1.thread hpc hreconnects, h.2.thread h.1 hpc hreconnects⟩
  | readLocked => exact ⟨h.1.thread hpc hreconnects, h.2.thread h.1 hpc hreconnects⟩

end Client

/-! ### Runs -/

theorem connected_consistent (readerCrypto writerCrypto : CryptoHandler) :
    (Client.connected readerCrypto writerCrypto).Consistent := by
  have hnone : ∀ i, ¬ Running [] i := by
    rintro i ⟨pc, hpc, -⟩
    simp at hpc
  refine ⟨⟨fun i hrun => absurd hrun (hnone i), fun i hrun => absurd hrun (hnone i),
    fun _ => ⟨rfl, rfl⟩⟩, fun _ => ⟨rfl, rfl⟩, ?_, ?_, ?_⟩
  · intro i pc hpc
    simp [Client.connected] at hpc
  · intro i hpc
    simp [Client.connected] at hpc
  · intro hdead
    exact absurd hdead (by simp [Client.connected])

theorem clientMachine_consistent {client next : Client} {action : ClientAction}
    {events : List ClientEvent} (h : client.Consistent)
    (hstep : clientMachine client action = some (next, events)) : next.Consistent := by
  cases action with
  | session move => exact Client.sessionSteps_consistent h (Client.sessionStep_spec hstep)
  | thread index answer =>
      obtain ⟨pc, out, hpc, hreconnects, rfl, -⟩ := Client.threadStep_eq_some hstep
      exact Client.stepped_consistent h hpc hreconnects

/-- Wherever the session thread is, it has the handle of the thread that may run or knows of none. -/
theorem Client.Consistent.owned {client : Client} (h : client.Consistent) :
    ∃ handle, Owned client.shared client.threads handle := by
  unfold Client.Consistent at h
  generalize client.session = session at h
  cases session with
  | closing stage caller =>
      cases stage with
      | takeHandle => exact ⟨_, h⟩
      | joining thread => exact ⟨_, h.2⟩
      | invalidateReader => exact ⟨_, h.2⟩
      | invalidateWriter => exact ⟨_, h.2⟩
      | clearAlive => exact ⟨_, h.2⟩
      | maybeSpawn => exact ⟨_, h.2.1⟩
      | storeHandle thread => exact ⟨_, h.2.1⟩
  | shutdown stage =>
      cases stage with
      | setFlag => exact ⟨_, h⟩
      | takeHandle => exact ⟨_, h.1⟩
      | joining thread => exact ⟨_, h.2.1⟩
      | clearReader => exact ⟨_, h.2.1⟩
      | clearWriter => exact ⟨_, h.2.1⟩
      | clearAlive => exact ⟨_, h.2.1⟩
  | idle => exact ⟨_, h.1⟩
  | writeCheck packet => exact ⟨_, h.1⟩
  | writeLocked packet => exact ⟨_, h.1⟩
  | readLocked => exact ⟨_, h.1⟩

theorem Client.Consistent.outside {client : Client} (h : client.Consistent)
    (houtside : client.session.Outside) :
    Owned client.shared client.threads client.reconnectThread
      ∧ Settled client.shared client.threads := by
  unfold Client.Consistent at h
  generalize client.session = session at h houtside
  cases session with
  | closing stage caller => exact absurd houtside id
  | shutdown stage => exact absurd houtside id
  | _ => exact h

/-! ### Attempts that fail -/

namespace Reconnects

variable {shared : Shared} {pc : ReconnectPc} {out : ReconnectOutput}

theorem unchanged_or_revives (h : Reconnects shared pc out) :
    (out.shared.reader = shared.reader ∧ out.shared.writer = shared.writer)
      ∨ (¬ out.pc.Trying ∧ out.events = [.revived]) := by
  cases h with
  | revivesReader => exact .inr ⟨fun htrying => htrying.2.2 trivial, rfl⟩
  | revivesWriter => exact .inr ⟨fun htrying => htrying.2.1 rfl, rfl⟩
  | _ => exact .inl ⟨rfl, rfl⟩

/-- An attempt that has begun to revive cannot fail any more. -/
theorem of_not_trying (h : Reconnects shared pc out) (hpc : ¬ pc.Trying) :
    ¬ out.pc.Trying ∧ ∀ event ∈ out.events, event = .revived := by
  cases h with
  | leaves htrying hflag => exact absurd htrying hpc
  | fails e htrying => exact absurd htrying hpc
  | moves htrying htrying' hsocket hsent hheld => exact absurd htrying hpc
  | rejects htrying => exact absurd htrying hpc
  | opens => exact absurd ⟨nofun, nofun, id⟩ hpc
  | recovers hentries => exact absurd ⟨nofun, nofun, id⟩ hpc
  | sends => exact absurd ⟨nofun, nofun, id⟩ hpc
  | revivesReader => exact absurd ⟨nofun, nofun, id⟩ hpc
  | ends => exact absurd ⟨nofun, nofun, id⟩ hpc
  | revivesWriter => exact ⟨fun htrying => htrying.2.1 rfl, by simp⟩
  | succeeds => exact ⟨fun htrying => htrying.1 rfl, by simp⟩

end Reconnects

/-- Thread `i` is past the first revive, and it has shown no failure since. -/
def NoFailure (i : Nat) (client : Client) (since : List ClientEvent) : Prop :=
  (∃ pc, client.threads[i]? = some pc ∧ ¬ pc.Trying)
    ∧ ∀ event, .reconnect i event ∈ since → event = .revived

theorem noFailure_step {i : Nat} {client next : Client} {since out : List ClientEvent}
    {action : ClientAction} (h : NoFailure i client since)
    (hstep : clientMachine client action = some (next, out)) : NoFailure i next (since ++ out) := by
  obtain ⟨⟨pc, hpc, htrying⟩, hsince⟩ := h
  cases action with
  | session move =>
      have heffect := (Client.sessionStep_spec hstep).effect
      have hlt : i < client.threads.length := (List.getElem?_eq_some_iff.mp hpc).1
      obtain ⟨spawned, hspawned⟩ := heffect.threads
      refine ⟨⟨pc, ?_, htrying⟩, fun event hmem => ?_⟩
      · rw [← hspawned, List.getElem?_append_left hlt]
        exact hpc
      · rcases List.mem_append.mp hmem with hold | hnew
        · exact hsince event hold
        · exact absurd hnew (heffect.not_reconnect i event)
  | thread index answer =>
      obtain ⟨pc', out', hpc', hreconnects, rfl, rfl⟩ := Client.threadStep_eq_some hstep
      by_cases hindex : index = i
      · subst hindex
        obtain rfl := Option.some.inj (hpc.symm.trans hpc')
        obtain ⟨htrying', hevents⟩ := hreconnects.of_not_trying htrying
        have hlt : index < client.threads.length := (List.getElem?_eq_some_iff.mp hpc).1
        refine ⟨⟨out'.pc, List.getElem?_set_self hlt, htrying'⟩, fun event hmem => ?_⟩
        rcases List.mem_append.mp hmem with hold | hnew
        · exact hsince event hold
        · obtain ⟨event', hmem', heq⟩ := List.mem_map.mp hnew
          obtain ⟨-, rfl⟩ := ClientEvent.reconnect.inj heq
          exact hevents event' hmem'
      · refine ⟨⟨pc, (List.getElem?_set_ne hindex).trans hpc, htrying⟩, fun event hmem => ?_⟩
        · rcases List.mem_append.mp hmem with hold | hnew
          · exact hsince event hold
          · obtain ⟨event', hmem', heq⟩ := List.mem_map.mp hnew
            exact absurd (ClientEvent.reconnect.inj heq).1 hindex

theorem unchanged_of_failure {i : Nat} {client next final : Client} {answer : Answer}
    {actions : List ClientAction} {out later : List ClientEvent} {event : ReconnectEvent}
    (hstep : clientMachine client (.thread i answer) = some (next, out))
    (hrun : clientMachine.run next actions = some (final, later))
    (hmem : .reconnect i event ∈ out ++ later) (hevent : event ≠ .revived) :
    next.shared.reader = client.shared.reader ∧ next.shared.writer = client.shared.writer := by
  obtain ⟨pc, out', hpc, hreconnects, rfl, rfl⟩ := Client.threadStep_eq_some hstep
  rcases hreconnects.unchanged_or_revives with hsame | ⟨htrying, hrevived⟩
  · exact hsame
  · have hlt : i < client.threads.length := (List.getElem?_eq_some_iff.mp hpc).1
    have hnow : NoFailure i (client.stepped i out') (out'.events.map (.reconnect i)) := by
      refine ⟨⟨out'.pc, List.getElem?_set_self hlt, htrying⟩, fun event' hmem' => ?_⟩
      rw [hrevived] at hmem'
      simpa using hmem'
    have hlater := clientMachine.run_invariant (I := NoFailure i) noFailure_step _ hnow hrun
    exact absurd (hlater.2 event hmem) hevent

/-- **The reconnect state machine.** Whatever the threads and the network do after a successful
`connect`: outside `close_and_maybe_reconnect` and `shutdown` at most one reconnect thread runs,
`socket_alive` means that both sockets are present, and with both flags down a thread is at work. A
step of a thread that still fails an attempt leaves the reader and the writer as they are. -/
theorem reconnect_consistent {readerCrypto writerCrypto : CryptoHandler}
    {actions : List ClientAction} {client : Client} {events : List ClientEvent}
    (hrun : clientMachine.run (Client.connected readerCrypto writerCrypto) actions =
      some (client, events)) :
    (client.session.Outside →
        (∀ i j, Running client.threads i → Running client.threads j → i = j)
          ∧ (client.shared.socketAlive = true →
              client.shared.readerSocket.isSome ∧ client.shared.writerSocket.isSome)
          ∧ (client.shared.socketAlive = false → client.shared.shuttingDown = false →
              ∃ i, Running client.threads i))
      ∧ ∀ i answer next out, clientMachine client (.thread i answer) = some (next, out) →
          ∀ rest final later, clientMachine.run next rest = some (final, later) →
            (.reconnect i .rejected ∈ out ++ later ∨ ∃ e, .reconnect i (.failed e) ∈ out ++ later) →
            next.shared.reader = client.shared.reader
              ∧ next.shared.writer = client.shared.writer := by
  refine ⟨fun houtside => ?_, fun i answer next out hstep rest final later hlater hfailed => ?_⟩
  · have hconsistent := clientMachine.run_invariant_state clientMachine_consistent
      (connected_consistent readerCrypto writerCrypto) hrun
    obtain ⟨howned, hsettled⟩ := hconsistent.outside houtside
    refine ⟨fun i j hi hj => ?_, hsettled.alive, hsettled.watched⟩
    have hhandle := howned.only i hi
    rw [howned.only j hj] at hhandle
    exact (Option.some.inj hhandle).symm
  · rcases hfailed with hrejected | ⟨e, hfailed⟩
    · exact unchanged_of_failure hstep hlater hrejected nofun
    · exact unchanged_of_failure hstep hlater hfailed nofun

/-- The connection is closed, and the new thread is at work. -/
theorem reconnect_consistent_after_close :
    let crypto : CryptoHandler := ⟨tagCipher, .start clientServerNonceMsb⟩
    ∃ client events, clientMachine.run (Client.connected crypto crypto)
        (.session .closeAndMaybeReconnect :: List.replicate 6 (.session .step)) =
          some (client, events)
      ∧ ∃ i, Running client.threads i := by
  intro crypto
  have hran : (clientMachine.run (Client.connected crypto crypto)
      (.session .closeAndMaybeReconnect :: List.replicate 6 (.session .step))).map (fun out =>
        (match out.1.session with
          | .idle => true
          | _ => false, out.1.shared.socketAlive, out.1.shared.shuttingDown)) =
      some (true, false, false) := by
    decide +kernel
  obtain ⟨⟨client, events⟩, hrun, hclient⟩ := Option.map_eq_some_iff.mp hran
  obtain ⟨hidle, hflags⟩ := Prod.mk.inj hclient
  obtain ⟨hlow, hopen⟩ := Prod.mk.inj hflags
  have houtside : client.session.Outside := by
    revert hidle
    cases client.session <;> simp [SessionPc.Outside]
  exact ⟨client, events, hrun, ((reconnect_consistent hrun).1 houtside).2.2 hlow hopen⟩

end EternalTerminal
