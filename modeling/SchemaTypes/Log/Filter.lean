import SchemaTypes.Log.Event
import SchemaTypes.Text.Blank
import SchemaTypes.Text.Word

/-!
# Log filters

A filter is a list of directives.  Each sets the slightest level that is told by the
parts of the program whose names start with its target, and for each event the
directive with the longest such target counts, the last one of several alike.
-/

namespace SchemaTypes

structure Directive where
  /-- The start of the names that the directive is for. -/
  target : Option (List Char)
  /-- The slightest level that is told, if any is. -/
  level : Option Level
  /-- The directive is for what happens inside a span. -/
  inSpan : Bool := false
  deriving DecidableEq, Repr, Inhabited

namespace Directive

/-!
## Levels

A level has a name, whose letters may be large or small, and a number.
-/

def levelOfNumber? : Nat -> Option (Option Level)
  | 0 => some none
  | 1 => some (some .error)
  | 2 => some (some .warn)
  | 3 => some (some .info)
  | 4 => some (some .debug)
  | 5 => some (some .trace)
  | _ => none

def levelOfName? (s : List Char) : Option (Option Level) :=
  match String.ofList (s.map Char.toLower) with
  | "off" => some none
  | "error" => some (some .error)
  | "warn" => some (some .warn)
  | "info" => some (some .info)
  | "debug" => some (some .debug)
  | "trace" => some (some .trace)
  | _ => none

def level? (s : List Char) : Option (Option Level) :=
  match Text.word? s with
  | some n => levelOfNumber? n
  | none => levelOfName? s

/-- The level after an equals sign, which stands for the slightest if it is left out. -/
def levelOrTrace? (s : List Char) : Option (Option Level) :=
  if s.isEmpty then some (some .trace) else level? s

/-!
## Reading directives

A directive is a level, a target, or both around an equals sign; a span in brackets
may stand before the sign.  The parts are found in the text between blanks, but they
are cut from the text with its blanks.
-/

def startsDirective (c : Char) : Bool :=
  c.isAlphanum || 0x80 ≤ c.toNat || c == '-' || c == ':' || c == '_' || c == '['

/-- The number of characters up to the end of a span, which starts after its bracket. -/
def spanLength? (s : List Char) : Option Nat :=
  let name := s.takeWhile fun c => c != ']' && c != '\x7b'
  match s.drop name.length with
  | ']' :: _ => some (name.length + 1)
  | '\x7b' :: rest =>
      let fields := rest.takeWhile (· != '\x7d')
      match rest.drop fields.length with
      | '\x7d' :: ']' :: _ => if fields.isEmpty then none else some (name.length + fields.length + 3)
      | _ => none
  | _ => none

def parse? (s : List Char) : Option Directive := do
  let plain := Text.trim s
  let first ← plain.head?
  if !startsDirective first then none
  let before := plain.takeWhile fun c => c != '=' && c != '['
  match plain.drop before.length with
  | [] =>
      match level? s with
      | some level => some ⟨none, level, false⟩
      | none => some ⟨some s, some .trace, false⟩
  | '[' :: rest =>
      let length ← spanLength? rest
      let behind := before.length + 1 + length
      let target := some (s.take before.length)
      match plain.drop behind with
      | [] => some ⟨target, some .trace, true⟩
      | '=' :: _ => do
          let level ← levelOrTrace? (s.drop (behind + 1))
          some ⟨target, level, true⟩
      | _ => none
  | _ => do
      let level ← levelOrTrace? (s.drop (before.length + 1))
      some ⟨some (s.take before.length), level, false⟩

/-!
## Matching
-/

/-- Whether the directive is for an event.  No event happens inside a span. -/
def concerns (d : Directive) (e : Event) : Bool :=
  !d.inSpan && (d.target.getD []).isPrefixOf e.target.toList

def weight (d : Directive) : Nat :=
  match d.target with
  | none => 0
  | some target => target.length + 1

end Directive

abbrev LogFilter := List Directive

namespace LogFilter

def pieces (s : List Char) : List (List Char) :=
  s.foldr
    (fun c rest =>
      match rest with
      | [] => [[c]]
      | piece :: more => if c = ',' then [] :: piece :: more else (c :: piece) :: more)
    [[]]

/-- The filter of a text, nothing if one of its directives cannot be read. -/
def parse? (s : List Char) : Option LogFilter :=
  ((pieces s).filter fun piece => !piece.isEmpty).mapM Directive.parse?

/-- The filter that tells everything down to `info`. -/
def standard : LogFilter :=
  [⟨none, some .info, false⟩]

def ofSetting (setting : Option (List Char)) : LogFilter :=
  ((setting.bind parse?).getD standard)

/-- The directive that counts among the ones given and one chosen before them. -/
def choose (best : Option Directive) : List Directive -> Option Directive
  | [] => best
  | d :: rest =>
      match best with
      | none => choose (some d) rest
      | some b => if b.weight ≤ d.weight then choose (some d) rest else choose (some b) rest

def tells (filter : LogFilter) (e : Event) : Bool :=
  match choose none (filter.filter fun d => d.concerns e) with
  | some ⟨_, some level, _⟩ => e.level.rank ≤ level.rank
  | _ => false

end LogFilter

end SchemaTypes
