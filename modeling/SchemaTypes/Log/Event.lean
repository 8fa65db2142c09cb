/-!
# Log events

An event tells one step of the program.  It has a level, the part of the program that
tells it, a message and named values, and it is written on one line.
-/

namespace SchemaTypes

inductive Level where
  | error
  | warn
  | info
  | debug
  | trace
  deriving DecidableEq, Repr, Inhabited

namespace Level

def name : Level -> String
  | error => "ERROR"
  | warn => "WARN"
  | info => "INFO"
  | debug => "DEBUG"
  | trace => "TRACE"

def rank : Level -> Nat
  | error => 1
  | warn => 2
  | info => 3
  | debug => 4
  | trace => 5

end Level

structure Event where
  level : Level
  /-- The part of the program. -/
  target : String
  message : String
  values : List (String × List Char) := []
  deriving DecidableEq, Repr, Inhabited

namespace Event

def valueText (v : String × List Char) : List Char :=
  ' ' :: v.1.toList ++ '=' :: v.2

def text (e : Event) : List Char :=
  e.level.name.toList ++ ' ' :: e.target.toList ++ ':' :: ' ' :: e.message.toList ++
    e.values.flatMap valueText

def number (n : Nat) : List Char :=
  (toString n).toList

end Event

end SchemaTypes
