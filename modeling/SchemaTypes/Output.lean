import SchemaTypes.Disk.Basic
import SchemaTypes.Log.Event

/-!
# Writing the output

The output replaces the file under its path, in directories that are made for it.  It
can also be kept from the disk, as a preview of what would be written.
-/

namespace SchemaTypes

inductive WriteError where
  | createDirectory (path : Path) (fault : DiskFault)
  | writeFile (path : Path) (fault : DiskFault)
  deriving DecidableEq, Repr, Inhabited

namespace WriteError

def message : WriteError -> String
  | createDirectory path fault =>
      "Failed to create directory " ++ String.ofList path ++ ": " ++ fault.message
  | writeFile path fault => "Failed to write file " ++ String.ofList path ++ ": " ++ fault.message

end WriteError

inductive WriteResult where
  | written (path : Path) (bytes : Nat)
  | preview (path : Path) (content : List Char)
  deriving DecidableEq, Repr, Inhabited

namespace WriteResult

def isWritten : WriteResult -> Bool
  | written _ _ => true
  | preview _ _ => false

def events : WriteResult -> List Event
  | written path bytes =>
      [{ level := .debug, target := "prisma_ts::writer", message := "Wrote output file",
         values := [("path", path), ("bytes", Event.number bytes)] }]
  | preview _ _ => []

end WriteResult

namespace Disk

variable {m : Type -> Type} [Monad m]

def prepare (disk : Disk m) (path : Path) : m (Except WriteError Unit) := do
  match Path.parent? path with
  | none => return .ok ()
  | some parent =>
      if parent.isEmpty then return .ok ()
      else
        match ← disk.ensureDirectories parent with
        | .ok () => return .ok ()
        | .error fault => return .error (.createDirectory parent fault)

def writeOutput (disk : Disk m) (path : Path) (content : List Char) :
    m (Except WriteError WriteResult) := do
  match ← disk.prepare path with
  | .error e => return .error e
  | .ok () =>
      let bytes := Text.encode content
      match ← disk.writeFile path bytes with
      | .ok () => return .ok (.written path bytes.length)
      | .error fault => return .error (.writeFile path fault)

def output (disk : Disk m) (keep : Bool) (path : Path) (content : List Char) :
    m (Except WriteError WriteResult) :=
  if keep then return .ok (.preview path content) else disk.writeOutput path content

end Disk

end SchemaTypes
