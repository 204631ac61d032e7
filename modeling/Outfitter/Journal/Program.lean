import Outfitter.Journal.Trace

/-!
Programs of turns and stages in any nesting, in which faults arise, pass through what encloses them, and
may be caught.
-/

namespace Outfitter.Journal

inductive Program where
  | nothing
  | fail (reason : String)
  | andThen (first second : Program)
  | stage (name description : String) (body : Program)
  | turn (text session source : Value) (body : Program)
  /-- A fault of the body goes no further. -/
  | caught (body : Program)
  deriving Inhabited

namespace Program

def run : Program → Traced Unit
  | nothing => pure ()
  | fail reason => throw (.raised reason)
  | andThen first second => do
    first.run
    second.run
  | stage name description body => body.run.inStage name description
  | turn text session source body => body.run.inTurn text session source
  | caught body => do
    let _ ← body.run.observe

/-- Programs one after the other. -/
def sequence (programs : List Program) : Program :=
  programs.foldr andThen nothing

end Program

end Outfitter.Journal
