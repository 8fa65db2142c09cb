import SchemaTypes.Generation

/-!
# Errors of commands
-/

namespace SchemaTypes

inductive CheckFault where
  | notGenerated (path : Path)
  | outOfDate
  deriving DecidableEq, Repr, Inhabited

namespace CheckFault

def message : CheckFault -> String
  | notGenerated path => "Generated file not found: " ++ String.ofList path
  | outOfDate => "Types are out of date"

end CheckFault

inductive CommandError where
  | generate (e : GenerateError)
  | input (path : Path) (e : ReadError)
  | check (fault : CheckFault)
  | disk (fault : DiskFault)
  deriving DecidableEq, Repr, Inhabited

namespace CommandError

def message : CommandError -> String
  | generate e => "Failed to generate types: " ++ e.message
  | input path e => "Invalid DMMF input " ++ String.ofList path ++ ": " ++ e.message
  | check fault => "Validation failed: " ++ fault.message
  | disk fault => "IO error: " ++ fault.message

def exitCode : CommandError -> Nat
  | check _ => 2
  | _ => 1

end CommandError

end SchemaTypes
