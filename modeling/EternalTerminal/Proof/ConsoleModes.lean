import EternalTerminal.Library.Setting
import EternalTerminal.Terminal.RawMode

/-!
# The console after a session

Each of the two modes is a setting that `setup` changes and `teardown` puts back. A `setup` that fails after
it has set a mode is a change that nothing keeps track of: `Drop` does not undo it, and a later `setup`
takes the raw mode for the one to go back to.
-/

namespace EternalTerminal

namespace EnableAnswers

/-- `enable_raw` comes as far as to set the input mode. -/
def setsInput (answers : EnableAnswers) : Bool :=
  answers.getIn.isNone && answers.getOut.isNone && answers.setIn.isNone

def setsOutput (answers : EnableAnswers) : Bool :=
  answers.setsInput && (answers.setOut.isNone || answers.setOutAgain.isNone)

/-- `enable_raw` returns without an error. -/
def succeeds (answers : EnableAnswers) : Bool := answers.setsOutput && answers.shown.isNone

end EnableAnswers

/-! ### One of the two modes -/

inductive ConsoleMode where
  | input
  | output

namespace ConsoleMode

def get (modes : ConsoleModes) : ConsoleMode → UInt32
  | input => modes.input
  | output => modes.output

def saved (console : LocalConsole) : ConsoleMode → UInt32
  | input => console.savedInMode
  | output => console.savedOutMode

/-- `enable_raw` sets the mode. -/
def changed (answers : EnableAnswers) : ConsoleMode → Bool
  | input => answers.setsInput
  | output => answers.setsOutput

/-- What `enable_raw` sets it to. -/
def raw (answers : EnableAnswers) (mode : UInt32) : ConsoleMode → UInt32
  | input => rawIn mode
  | output =>
    if answers.setOut.isNone then rawOut mode ||| disableNewlineAutoReturn else rawOut mode

/-- The mode is one that `enable_raw` sets, by its first or its second try. -/
def Raw (side : ConsoleMode) (mode : UInt32) : Prop :=
  ∃ answers before, side.raw answers before = mode

/-- `disable_raw` sets the mode back. -/
def restored (setIn setOut : Bool) : ConsoleMode → Bool
  | input => setIn
  | output => setOut

end ConsoleMode

namespace RawMode

variable {s next : RawMode} {answers : EnableAnswers}

/-- The call keeps track of one of the modes: a `setup` of a console that is not enabled does not fail
after it has set the mode, and a `teardown` of one that is enabled does not fail to set it back. -/
def Keeps (side : ConsoleMode) (s : RawMode) : ConsoleCall → Prop
  | .setup answers => s.console.enabled = true ∨ side.changed answers = false ∨ answers.succeeds
  | .teardown setIn setOut => s.console.enabled = false ∨ side.restored setIn setOut

instance (side : ConsoleMode) (s : RawMode) : ∀ call, Decidable (Keeps side s call)
  | .setup answers => inferInstanceAs (Decidable
      (s.console.enabled = true ∨ side.changed answers = false ∨ answers.succeeds = true))
  | .teardown setIn setOut => inferInstanceAs (Decidable
      (s.console.enabled = false ∨ side.restored setIn setOut = true))

variable (side : ConsoleMode)

end RawMode

open RawMode

end EternalTerminal
