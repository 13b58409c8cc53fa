import RegexMachine.Instruction.Text
import RegexMachine.Program

/-!
# Listings

A program as lines of text: one line for its settings, and one for each instruction with the
offset it stands at.
-/

namespace RegexMachine

namespace Located

/-- The line of an instruction, its offset brought to four columns. -/
def line (entry : Located) : String :=
  Text.padLeft 4 (toString entry.pc) ++ ": " ++ entry.instruction.text

end Located

namespace Program

/-- The line of the settings. -/
def settingsLine (program : Program) : String :=
  "captures: " ++ toString program.captures ++ ", counters: " ++ toString program.counters ++
    ", ignore_case: " ++ Text.truth program.ignoreCase ++ ", filter: " ++
    Text.optional (program.filter.map Filter.text)

/-- The lines of a program. -/
def listing (program : Program) : List String :=
  program.settingsLine :: program.entries.map Located.line

end Program

end RegexMachine
