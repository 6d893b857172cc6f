import EternalTerminal.Library.Transducer
import EternalTerminal.Packet

/-!
# The modes of the console (`terminal.rs`, `LocalConsole` on Windows)

`setup` saves the two modes and makes the console raw, `teardown` and `Drop` set the modes that were saved.
Any of the calls can fail, and what the calls before it have set stays set.
-/

namespace EternalTerminal

/-- The two modes, which belong to the system. -/
structure ConsoleModes where
  input : UInt32
  output : UInt32
  deriving DecidableEq, Repr

structure LocalConsole where
  enabled : Bool := false
  savedInMode : UInt32 := 0
  savedOutMode : UInt32 := 0
  deriving DecidableEq, Repr

def enableProcessedInput : UInt32 := 0x0001
def enableLineInput : UInt32 := 0x0002
def enableEchoInput : UInt32 := 0x0004
def enableVirtualTerminalInput : UInt32 := 0x0200
def enableProcessedOutput : UInt32 := 0x0001
def enableWrapAtEolOutput : UInt32 := 0x0002
def enableVirtualTerminalProcessing : UInt32 := 0x0004
def disableNewlineAutoReturn : UInt32 := 0x0008

/-- `bail!` with the name of a call and what `GetLastError` says. -/
def callFailed (call : String) (code : Nat) : Error := .msg s!"{call} failed: {code}"

def rawIn (inMode : UInt32) : UInt32 :=
  (inMode &&& ~~~(enableProcessedInput ||| enableLineInput ||| enableEchoInput))
    ||| enableVirtualTerminalInput

/-- `raw_out` of the second try. -/
def rawOut (outMode : UInt32) : UInt32 :=
  outMode ||| enableProcessedOutput ||| enableWrapAtEolOutput ||| enableVirtualTerminalProcessing

/-- What the calls of `enable_raw` fail with. -/
structure EnableAnswers where
  getIn : Option Nat := none
  getOut : Option Nat := none
  setIn : Option Nat := none
  setOut : Option Nat := none
  setOutAgain : Option Nat := none
  /-- The `write_all` and `flush` of DECAWM. -/
  shown : Option ErrorKind := none

/-- A console, and the modes of its system. -/
structure RawMode where
  console : LocalConsole
  modes : ConsoleModes
  deriving DecidableEq, Repr

namespace RawMode

/-- DECAWM, after the modes are set. -/
def reassert (s : RawMode) (answers : EnableAnswers) : Except Error Unit × RawMode :=
  match answers.shown with
  | some e => (.error (.io e), s)
  | none => (.ok (), s)

def setOut (s : RawMode) (outMode : UInt32) (answers : EnableAnswers) : Except Error Unit × RawMode :=
  match answers.setOut with
  | none =>
    let raw := rawOut outMode ||| disableNewlineAutoReturn
    { s with modes := { s.modes with output := raw } }.reassert answers
  | some _ =>
    match answers.setOutAgain with
    | none => { s with modes := { s.modes with output := rawOut outMode } }.reassert answers
    | some code => (.error (callFailed "SetConsoleMode(stdout)" code), s)

/-- `enable_raw` -/
def enableRaw (s : RawMode) (answers : EnableAnswers) : Except Error Unit × RawMode :=
  match answers.getIn with
  | some code => (.error (callFailed "GetConsoleMode(stdin)" code), s)
  | none =>
    match answers.getOut with
    | some code => (.error (callFailed "GetConsoleMode(stdout)" code), s)
    | none =>
      let inMode := s.modes.input
      let outMode := s.modes.output
      let s := { s with console :=
        { s.console with savedInMode := inMode, savedOutMode := outMode } }
      match answers.setIn with
      | some code => (.error (callFailed "SetConsoleMode(stdin)" code), s)
      | none => { s with modes := { s.modes with input := rawIn inMode } }.setOut outMode answers

/-- `LocalConsole::setup` -/
def setup (s : RawMode) (answers : EnableAnswers) : Except Error Unit × RawMode :=
  if s.console.enabled then (.ok (), s)
  else
    match s.enableRaw answers with
    | (.error e, s) => (.error e, s)
    | (.ok (), s) => (.ok (), { s with console := { s.console with enabled := true } })

/-- `disable_raw`; whether the two calls succeed. -/
def disableRaw (s : RawMode) (setIn setOut : Bool) : RawMode :=
  { s with modes :=
    { input := if setIn then s.console.savedInMode else s.modes.input
      output := if setOut then s.console.savedOutMode else s.modes.output } }

/-- `LocalConsole::teardown`, which is also `Drop`. -/
def teardown (s : RawMode) (setIn setOut : Bool) : RawMode :=
  if !s.console.enabled then s
  else
    let s := s.disableRaw setIn setOut
    { s with console := { s.console with enabled := false } }

/-- What `LocalConsole::new` starts from; it goes on with `setup`. -/
def fresh (modes : ConsoleModes) : RawMode := ⟨{}, modes⟩

end RawMode

inductive ConsoleCall where
  | setup (answers : EnableAnswers)
  | teardown (setIn setOut : Bool)

end EternalTerminal
