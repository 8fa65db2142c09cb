import SchemaTypes.Text.Blank

/-!
# Lines

Printed text is a list of lines, each with the number of levels it is indented
by.  Joining two lists on one line is how pieces that may be broken are set one
after the other.
-/

namespace SchemaTypes
namespace TypeScript

structure Line where
  depth : Nat
  text : List Char
  deriving DecidableEq, Repr, Inhabited

namespace Line

/-- The second list goes on where the last line of the first one ends. -/
def glue : List Line -> List Line -> List Line
  | [], ls => ls
  | ls, [] => ls
  | [l], m :: ms => ⟨l.depth, l.text ++ m.text⟩ :: ms
  | l :: ls, ms => l :: glue ls ms

/-- A text that goes on where the last line ends. -/
def append (ls : List Line) (s : List Char) : List Line :=
  glue ls [⟨0, s⟩]

def before (depth : Nat) (s : List Char) (ls : List Line) : List Line :=
  glue [⟨depth, s⟩] ls

def glueWith (separator : List Char) : List (List Line) -> List Line
  | [] => []
  | [ls] => ls
  | ls :: more => glue (append ls separator) (glueWith separator more)

def blank : Line := ⟨0, []⟩

def render (tabWidth : Nat) (l : Line) : List Char :=
  List.replicate (tabWidth * l.depth) ' ' ++ l.text ++ ['\n']

def renderAll (tabWidth : Nat) (ls : List Line) : List Char :=
  ls.flatMap (render tabWidth)

end Line

end TypeScript
end SchemaTypes
