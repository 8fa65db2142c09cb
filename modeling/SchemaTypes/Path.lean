/-!
# Paths

A path is a text whose segments stand between slashes.  Empty segments and segments
of one dot name nothing, except that a path may start with a slash or with a dot of
its own.  A path is never resolved here: its text is kept as it was given.
-/

namespace SchemaTypes

abbrev Path := List Char

namespace Path

/-!
## Segments
-/

/-- The texts between the slashes of a text, the empty ones included. -/
def segments : List Char -> List (List Char)
  | [] => [[]]
  | c :: rest =>
      if c = '/' then [] :: segments rest
      else
        match segments rest with
        | [] => [[c]]
        | s :: more => (c :: s) :: more

def ofSegments : List (List Char) -> Path
  | [] => []
  | [s] => s
  | s :: rest => s ++ '/' :: ofSegments rest

def isIdle (s : List Char) : Bool :=
  s.isEmpty || s == ['.']

def isAbsolute : Path -> Bool
  | '/' :: _ => true
  | _ => false

/-- The start of a path that is a component without a name, and the text after it. -/
def splitStart : Path -> Path × List Char
  | '/' :: rest => (['/'], rest)
  | ['.'] => (['.'], [])
  | '.' :: '/' :: rest => (['.'], '/' :: rest)
  | p => ([], p)

def dropIdleEnd (s : List (List Char)) : List (List Char) :=
  (s.reverse.dropWhile isIdle).reverse

/-!
## Parents and file names
-/

/-- The path without its last component, if it has one. -/
def parent? (p : Path) : Option Path :=
  let (start, rest) := splitStart p
  match (dropIdleEnd (segments rest)).reverse with
  | _ :: before => some (start ++ ofSegments (dropIdleEnd before.reverse))
  | [] => if start = ['.'] then some [] else none

def fileName? (p : Path) : Option (List Char) :=
  match (dropIdleEnd (segments (splitStart p).2)).reverse with
  | s :: _ => if s = ['.', '.'] then none else some s
  | [] => none

def isPlainName (name : List Char) : Bool :=
  fileName? name == some name

def join (directory : Path) (name : List Char) : Path :=
  if isAbsolute name then name
  else
    match directory.getLast? with
    | none => name
    | some '/' => directory ++ name
    | some _ => directory ++ '/' :: name

/-- The directories on the way to a path, the path itself first.  Neither the empty
path nor the top directory is one of them. -/
def chainFrom : Nat -> Path -> List Path
  | 0, _ => []
  | steps + 1, p =>
      if p.isEmpty then []
      else
        match parent? p with
        | none => []
        | some q => p :: chainFrom steps q

def chain (p : Path) : List Path :=
  chainFrom (p.length + 1) p

end Path

end SchemaTypes
