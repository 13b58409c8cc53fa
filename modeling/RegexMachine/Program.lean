import RegexMachine.Filter
import RegexMachine.Program.Validation

/-!
# Programs

A program is a byte stream that passed validation, with its numbers of groups and scratch
slots and the two settings of a search. It keeps the instructions of the stream by offset, so
that fetching one does not decode it again.
-/

namespace RegexMachine

/-- A validated program. -/
structure Program where
  bytes : List UInt8
  /-- The number of groups, the whole match included. -/
  captures : Nat
  /-- The number of scratch slots. -/
  counters : Nat
  /-- Whether literals match up to letter case. -/
  ignoreCase : Bool
  /-- A necessary condition on the first unit of a match. -/
  filter : Option Filter
  /-- The instructions of the stream in order. -/
  entries : List Located
  /-- The instructions of the stream by offset. -/
  index : OffsetIndex
  entries_eq : entries = (Disassembly.ofStream 0 bytes).entries
  index_eq : index = OffsetIndex.ofEntries entries
  valid : Program.error? bytes captures counters = none

namespace Program

/-- The program of a byte stream, without a filter and with exact literals, or the reason why
the stream is none. -/
def ofBytes (bytes : List UInt8) (captures counters : Nat) : Except CodeError Program :=
  match valid : error? bytes captures counters with
  | some error => .error error
  | none =>
    .ok {
      bytes, captures, counters, valid
      ignoreCase := false
      filter := none
      entries := (Disassembly.ofStream 0 bytes).entries
      index := OffsetIndex.ofEntries (Disassembly.ofStream 0 bytes).entries
      entries_eq := rfl
      index_eq := rfl }

/-- The program with literals that match up to letter case, or exactly. -/
def withIgnoreCase (program : Program) (ignoreCase : Bool) : Program :=
  { program with ignoreCase }

/-- The program with a filter, or without one. -/
def withFilter (program : Program) (filter : Option Filter) : Program :=
  { program with filter }

/-- The number of cells that the ends of the groups take. They come first in the state of a
run, and the scratch slots follow them. -/
def slotCount (program : Program) : Nat :=
  2 * program.captures

/-- The number of cells in the state of a run and in each frame of its stack: two for every
group, one for every scratch slot, and one for the offset a frame resumes at. -/
def frameSize (program : Program) : Nat :=
  program.slotCount + program.counters + 1

/-- Whether the cells of a frame can be counted. -/
def frameCountable (program : Program) : Bool :=
  program.frameSize < cellLimit

/-- Whether one array holds the ends of the groups. A search makes such an array. -/
def slotsFit (program : Program) : Bool :=
  program.slotCount ≤ arrayLimit

/-- Whether one array holds a frame. An attempt makes such an array, so a program whose frames
are larger can not be run. -/
def frameFits (program : Program) : Bool :=
  program.frameSize ≤ arrayLimit

/-- The instruction at an offset. -/
def fetch (program : Program) (pc : Nat) : Option (Instruction UInt32) :=
  program.index.at? pc

end Program

end RegexMachine
