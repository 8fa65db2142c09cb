import SchemaTypes.Disk.Basic

/-!
# File trees

A file tree is a disk in memory.  It maps places, lists of names from the top, to
directories and files, and paths that are not absolute start at one of its places.
-/

namespace SchemaTypes

/-- The names on the way from the top, the outermost first. -/
abbrev Place := List (List Char)

inductive Node where
  | directory
  | file (bytes : List UInt8)
  deriving DecidableEq, Repr, Inhabited

structure FileTree where
  entries : List (Place × Node) := []
  /-- The place at which paths start. -/
  here : Place := []
  deriving DecidableEq, Repr, Inhabited

namespace FileTree

/-!
## Entries
-/

def findEntry (place : Place) : List (Place × Node) -> Option Node
  | [] => none
  | (p, n) :: rest => if p = place then some n else findEntry place rest

def putEntry (place : Place) (node : Node) : List (Place × Node) -> List (Place × Node)
  | [] => [(place, node)]
  | (p, n) :: rest => if p = place then (place, node) :: rest else (p, n) :: putEntry place node rest

/-- What is at a place.  The top is always a directory. -/
def at? (t : FileTree) (place : Place) : Option Node :=
  if place = [] then some .directory else findEntry place t.entries

def put (t : FileTree) (place : Place) (node : Node) : FileTree :=
  { t with entries := putEntry place node t.entries }

/-!
## Following paths
-/

def longestName : Nat := 255

def longestPath : Nat := 4095

/-- A name that is looked up in a directory can not be too long. -/
def checkName (name : List Char) : Except DiskFault Unit :=
  if longestName < Text.byteLength name then .error .nameTooLong else .ok ()

def enter (t : FileTree) (place : Place) (segment : List Char) : Except DiskFault Place :=
  if Path.isIdle segment then .ok place
  else if segment = ['.', '.'] then .ok place.dropLast
  else do
    checkName segment
    match t.at? (place ++ [segment]) with
    | none => .error .notFound
    | some (.file _) => .error .notDirectory
    | some .directory => .ok (place ++ [segment])

def enterAll (t : FileTree) (place : Place) : List (List Char) -> Except DiskFault Place
  | [] => .ok place
  | segment :: rest => do
      let place ← t.enter place segment
      t.enterAll place rest

inductive Target where
  /-- A directory that the path names without its name. -/
  | directory (place : Place)
  /-- A name in a directory.  A slash after it means that it names a directory. -/
  | name (parent : Place) (name : List Char) (slash : Bool)
  deriving DecidableEq, Repr, Inhabited

/-- The target of a path, with every directory before it entered. -/
def follow (t : FileTree) (path : Path) : Except DiskFault Target :=
  if '\x00' ∈ path then .error .nulInName
  else if path = [] then .error .notFound
  else if longestPath < Text.byteLength path then .error .nameTooLong
  else
    let start := if Path.isAbsolute path then [] else t.here
    let segments := Path.segments path
    let kept := (segments.reverse.dropWhile List.isEmpty).reverse
    match kept.reverse with
    | [] => .ok (.directory start)
    | last :: before => do
        let place ← t.enterAll start before.reverse
        if last = ['.'] then .ok (.directory place)
        else if last = ['.', '.'] then .ok (.directory place.dropLast)
        else .ok (.name place last (kept.length < segments.length))

def lookup (t : FileTree) (path : Path) : Except DiskFault Node := do
  match ← t.follow path with
  | .directory _ => .ok .directory
  | .name parent name slash =>
      checkName name
      match t.at? (parent ++ [name]) with
      | none => .error .notFound
      | some .directory => .ok .directory
      | some (.file bytes) => if slash then .error .notDirectory else .ok (.file bytes)

/-!
## Requests
-/

def pathExists (t : FileTree) (path : Path) : Bool :=
  match t.lookup path with
  | .ok _ => true
  | .error _ => false

def isDirectory (t : FileTree) (path : Path) : Bool :=
  t.lookup path matches .ok .directory

def readFile (t : FileTree) (path : Path) : Except DiskFault (List UInt8) :=
  match t.lookup path with
  | .ok (.file bytes) => .ok bytes
  | .ok .directory => .error .isDirectory
  | .error fault => .error fault

def makeDirectory (t : FileTree) (path : Path) : Except DiskFault FileTree := do
  match ← t.follow path with
  | .directory _ => .error .exists
  | .name parent name _ =>
      checkName name
      match t.at? (parent ++ [name]) with
      | none => .ok (t.put (parent ++ [name]) .directory)
      | some _ => .error .exists

def writeFile (t : FileTree) (path : Path) (bytes : List UInt8) : Except DiskFault FileTree := do
  match ← t.follow path with
  | .directory _ => .error .isDirectory
  | .name parent name slash =>
      if slash then .error .isDirectory
      else
        checkName name
        match t.at? (parent ++ [name]) with
        | some .directory => .error .isDirectory
        | _ => .ok (t.put (parent ++ [name]) (.file bytes))

/-!
## The disk
-/

def change (request : FileTree -> Except DiskFault FileTree) :
    StateM FileTree (Except DiskFault Unit) := fun t =>
  match request t with
  | .ok u => (.ok (), u)
  | .error fault => (.error fault, t)

def disk : Disk (StateM FileTree) where
  pathExists path := fun t => (t.pathExists path, t)
  isDirectory path := fun t => (t.isDirectory path, t)
  readFile path := fun t => (t.readFile path, t)
  makeDirectory path := change fun t => t.makeDirectory path
  writeFile path bytes := change fun t => t.writeFile path bytes

end FileTree

end SchemaTypes
