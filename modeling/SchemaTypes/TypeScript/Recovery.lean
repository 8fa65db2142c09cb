import SchemaTypes.Text.Blank
import SchemaTypes.Text.Utf8

/-!
# Faults of sources

A source that is no program gets a tree all the same.  Some of its nodes are errors, which
take up what does not belong there, and others stand for what is missing.  How a source
gets its tree is left open here; the fault of the source is the first of these nodes.
-/

namespace SchemaTypes
namespace TypeScript

/-- What is known of a node.  Its row and column count from zero, and it takes up the bytes
from `start` to `stop`. -/
structure NodeInfo where
  kind : String
  isError : Bool
  isMissing : Bool
  /-- An error lies in the node, or it is one. -/
  hasError : Bool
  row : Nat
  column : Nat
  start : Nat
  stop : Nat
  deriving DecidableEq, Repr, Inhabited

inductive SourceTree where
  | node (info : NodeInfo) (children : List SourceTree)
  deriving Repr

class Recovery where
  tree : List Char -> SourceTree

namespace NodeInfo

def isFault (n : NodeInfo) : Bool :=
  n.isError || n.isMissing

/-- A node is searched for faults if it has an error or is missing. -/
def isSearched (n : NodeInfo) : Bool :=
  n.hasError || n.isMissing

def text (n : NodeInfo) (source : List Char) : List Char :=
  match Text.decode (((Text.encode source).drop n.start).take (n.stop - n.start)) with
  | .ok s => s
  | .error _ => []

def shownLength : Nat := 40

def reason (n : NodeInfo) (source : List Char) : String :=
  if n.isMissing then "missing " ++ n.kind
  else
    "unexpected `" ++ String.ofList (Text.collapse ((n.text source).take shownLength)) ++ "`"

end NodeInfo

namespace SourceTree

def info : SourceTree -> NodeInfo
  | node info _ => info

mutual

def firstFault? : SourceTree -> Option NodeInfo
  | node info children => if info.isFault then some info else firstFaultAmong? children

def firstFaultAmong? : List SourceTree -> Option NodeInfo
  | [] => none
  | node info children :: rest =>
      if info.isSearched then
        match firstFault? (node info children) with
        | some fault => some fault
        | none => firstFaultAmong? rest
      else firstFaultAmong? rest

end

def fault (t : SourceTree) : NodeInfo :=
  t.firstFault?.getD t.info

end SourceTree

namespace Recovery

/-- Without another recovery the whole source is one error. -/
instance (priority := low) coarse : Recovery where
  tree source :=
    .node
      { kind := "ERROR", isError := true, isMissing := false, hasError := true, row := 0,
        column := 0, start := 0, stop := Text.byteLength source }
      []

end Recovery

end TypeScript
end SchemaTypes
