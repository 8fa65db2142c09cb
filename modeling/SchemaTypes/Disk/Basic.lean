import SchemaTypes.Path
import SchemaTypes.Text.Utf8

/-!
# Disks

A disk answers a few requests about the files under its paths.  What a program does
with files is written for any disk: a tree of files kept in memory is one, and the
files of the machine are another.
-/

namespace SchemaTypes

inductive DiskFault where
  | notFound
  | exists
  | notDirectory
  | isDirectory
  | nameTooLong
  | nulInName
  /-- A file that is read as text is not encoded as UTF-8. -/
  | notText
  /-- Any other fault, in the words of the disk. -/
  | other (message : String)
  deriving DecidableEq, Repr, Inhabited

namespace DiskFault

def message : DiskFault -> String
  | notFound => "No such file or directory (os error 2)"
  | .exists => "File exists (os error 17)"
  | notDirectory => "Not a directory (os error 20)"
  | isDirectory => "Is a directory (os error 21)"
  | nameTooLong => "File name too long (os error 36)"
  | nulInName => "file name contained an unexpected NUL byte"
  | notText => "stream did not contain valid UTF-8"
  | other s => s

end DiskFault

structure Disk (m : Type -> Type) where
  /-- Whether there is anything under a path. -/
  pathExists : Path -> m Bool
  isDirectory : Path -> m Bool
  readFile : Path -> m (Except DiskFault (List UInt8))
  makeDirectory : Path -> m (Except DiskFault Unit)
  /-- The bytes take the place of what the file holds. -/
  writeFile : Path -> List UInt8 -> m (Except DiskFault Unit)

namespace Disk

variable {m : Type -> Type} [Monad m]

def readText (disk : Disk m) (path : Path) : m (Except DiskFault (List Char)) := do
  match ← disk.readFile path with
  | .error fault => return .error fault
  | .ok bytes =>
      match Text.decode bytes with
      | .ok s => return .ok s
      | .error _ => return .error .notText

def ensureDirectory (disk : Disk m) (path : Path) : m (Except DiskFault Unit) := do
  match ← disk.makeDirectory path with
  | .error .exists =>
      if ← disk.isDirectory path then return .ok () else return .error .exists
  | answer => return answer

/-- A chain of directories, each inside the next one, all made unless they are there.
A directory is made after those around it only if it cannot be made at once. -/
def ensureChain (disk : Disk m) : List Path -> m (Except DiskFault Unit)
  | [] => return .ok ()
  | path :: around => do
      match ← disk.ensureDirectory path with
      | .error .notFound =>
          match ← ensureChain disk around with
          | .ok () => disk.ensureDirectory path
          | .error fault => return .error fault
      | answer => return answer

def ensureDirectories (disk : Disk m) (path : Path) : m (Except DiskFault Unit) :=
  disk.ensureChain (Path.chain path)

end Disk

end SchemaTypes
