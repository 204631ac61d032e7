import Outfitter.Console
import Outfitter.Journal.Setup

/-!
The console program: a conversation over standard input and output. What is kept of the journal is
printed before what it is about.
-/

namespace Outfitter.Console

open Journal

/-- The environment variables with these names that are set. -/
def environmentOf (names : List String) : IO Environment :=
  names.filterMapM fun name => return (← IO.getEnv name).map fun text => (name, text)

/-- A line without what ends it. -/
def chomp (line : String) : String :=
  let unended := (line.toList.reverse.dropWhile (· = '\n')).dropWhile (· = '\r')
  String.ofList unended.reverse

/-- The fault with which the program stops. -/
def stop (f : Fault) : IO UInt32 := do
  IO.eprintln s!"{f.name}: {f.message}"
  return 1

/-- The least level that is written where no level is set: that of warnings. -/
def quietLevel : Int :=
  30

/-- The conversation goes on with these filters. -/
partial def talk (filters : Fields) (journal : Context) : IO UInt32 := do
  let output ← IO.getStdout
  output.putStr prompt
  output.flush
  let line ← (← IO.getStdin).getLine
  if line.isEmpty then
    IO.eprintln "EOFError: EOF when reading a line"
    return 1
  let line := chomp line
  if isLeave line then
    output.putStr farewell
    return 0
  let (outcome, journal) := (answer filters line).runFrom { journal with entries := [] }
  (lines journal.entries).forM output.putStrLn
  match outcome with
  | .ok (printed, filters) =>
    output.putStr printed
    talk filters journal
  | .error f => stop f

/-- A conversation from its beginning. -/
def start : IO UInt32 := do
  match Setup.ofEnvironment (← environmentOf Setup.variableNames) with
  | .error f => stop f
  | .ok setup =>
    setup.complaint.forM IO.eprintln
    (← IO.getStdout).putStr banner
    talk [] (setup.context quietLevel)

end Outfitter.Console

def main : IO UInt32 :=
  Outfitter.Console.start
