/-!
Log records, and their lines.
-/
namespace CollectionLoops

/-- The names of the two parameters of a loop, in the texts that show them. -/
def parameterNames : List String := ["cb", "that"]

/-- What is logged: a loop about to run its first iteration, with its number of iterations and
whether its callback is bound; or a loop that was compiled, with its source text. -/
inductive LogRecord
  | iterations (name : String) (count : UInt64) (bound : Bool)
  | compiled (name source : String)
  deriving DecidableEq, Repr

def LogRecord.line : LogRecord → String
  | .iterations name count bound =>
    "TRACE " ++ name ++ ": " ++ count.toNat.repr ++ " iteration(s), bound=" ++
      if bound then "true" else "false"
  | .compiled name source =>
    "DEBUG compiled loop method '" ++ name ++ "' (" ++ ", ".intercalate parameterNames ++ "):\n" ++
      source

end CollectionLoops
