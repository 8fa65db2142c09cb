import SchemaTypes.TypeScript.Token
import SchemaTypes.TypeScript.Character

/-!
# Reading tokens

The tokens of a source are read from left to right, each as long as possible.
Two things depend on what came before: a slash opens a regular expression
unless an operand was just finished, and a closing brace may go on with the
template in which a substitution stands.  A source with a character that no
token can start with has no tokens.
-/

namespace SchemaTypes
namespace TypeScript
namespace Lexer

/-!
## Gaps
-/

/-- The text after an opening `/*`, up to and with the closing mark, and the rest. -/
def blockComment : List Char -> Option (List Char × List Char)
  | '*' :: '/' :: rest => some (['*', '/'], rest)
  | c :: rest => (blockComment rest).map fun (s, r) => (c :: s, r)
  | [] => none

def comment? : List Char -> Option (List Char × List Char)
  | '/' :: '/' :: rest =>
      some ('/' :: '/' :: rest.takeWhile (!endsLineComment ·), rest.dropWhile (!endsLineComment ·))
  | '/' :: '*' :: rest => (blockComment rest).map fun (s, r) => ('/' :: '*' :: s, r)
  | _ => none

/-- The gap at the start of the text, which begins on `row`, in at most so many pieces,
and what follows it. -/
def gap : Nat -> Nat -> List Char -> List Trivia × List Char
  | 0, _, cs => ([], cs)
  | fuel + 1, row, cs =>
      match cs.takeWhile isGap with
      | [] =>
          match comment? cs with
          | some (s, rest) =>
              let (more, rest) := gap fuel (row + Text.lineFeeds s) rest
              (.comment ⟨s, row⟩ :: more, rest)
          | none => ([], cs)
      | s =>
          let (more, rest) := gap fuel (row + Text.lineFeeds s) (cs.dropWhile isGap)
          (.blank s :: more, rest)

/-!
## Escapes

An escape is given by what follows its backslash.  Escapes by number need their
full form: two hexadecimal digits after `x`, four or a braced number after `u`.
-/

def escape? : List Char -> Option (List Char × List Char)
  | 'x' :: a :: b :: rest => if isHexDigit a && isHexDigit b then some (['x', a, b], rest) else none
  | 'u' :: '\x7b' :: rest =>
      match rest.takeWhile isHexDigit, rest.dropWhile isHexDigit with
      | a :: digits, '\x7d' :: rest => some ('u' :: '\x7b' :: a :: digits ++ ['\x7d'], rest)
      | _, _ => none
  | 'u' :: a :: b :: c :: d :: rest =>
      if [a, b, c, d].all isHexDigit then some (['u', a, b, c, d], rest) else none
  | 'x' :: _ => none
  | 'u' :: _ => none
  | c :: rest =>
      if isOctalDigit c then
        let digits := (c :: rest.take 2).takeWhile isOctalDigit
        some (digits, (c :: rest).drop digits.length)
      else
        match rest with
        | d :: more =>
            if (c == '\r' || c == '?') && (d == '\n' || d.toNat == 0x2028 || d.toNat == 0x2029) then
              some ([c, d], more)
            else
              some ([c], rest)
        | [] => some ([c], rest)
  | [] => none

/-- One escape inside an identifier, its backslash included. -/
def nameEscape? : List Char -> Option (List Char × List Char)
  | '\\' :: 'u' :: rest => (escape? ('u' :: rest)).map fun (s, r) => ('\\' :: s, r)
  | _ => none

/-!
## Words and numbers
-/

/-- The part of an identifier after its first character, of at most so many
characters and escapes. -/
def namePartsFrom : Nat -> List Char -> List Char × List Char
  | 0, cs => ([], cs)
  | fuel + 1, cs =>
      match nameEscape? cs with
      | some (s, rest) =>
          let (more, rest) := namePartsFrom fuel rest
          (s ++ more, rest)
      | none =>
          match cs with
          | c :: rest =>
              if isNamePart c then
                let (more, rest) := namePartsFrom fuel rest
                (c :: more, rest)
              else
                ([], cs)
          | [] => ([], [])

def name? (fuel : Nat) (cs : List Char) : Option (List Char × List Char) :=
  let go (first rest : List Char) :=
    let (more, rest) := namePartsFrom fuel rest
    some (first ++ more, rest)
  match nameEscape? cs with
  | some (s, rest) => go s rest
  | none =>
      match cs with
      | c :: rest => if isNameStart c then go [c] rest else none
      | [] => none

/-- Digits of one class, with single underscores between them. -/
def digitsFrom (isDigit : Char -> Bool) : List Char -> List Char × List Char
  | [] => ([], [])
  | '_' :: c :: rest =>
      if isDigit c then
        let (more, rest) := digitsFrom isDigit rest
        ('_' :: c :: more, rest)
      else
        ([], '_' :: c :: rest)
  | c :: rest =>
      if isDigit c then
        let (more, rest) := digitsFrom isDigit rest
        (c :: more, rest)
      else
        ([], c :: rest)

/-- At least one digit of a class, with single underscores between digits. -/
def digits? (isDigit : Char -> Bool) (cs : List Char) : Option (List Char × List Char) :=
  match cs with
  | c :: rest =>
      if isDigit c then
        let (more, rest) := digitsFrom isDigit rest
        some (c :: more, rest)
      else
        none
  | [] => none

def exponent (cs : List Char) : List Char × List Char :=
  match cs with
  | e :: rest =>
      if e == 'e' || e == 'E' then
        match rest with
        | s :: more =>
            if s == '+' || s == '-' then
              match digits? isDigit more with
              | some (ds, r) => (e :: s :: ds, r)
              | none => ([], cs)
            else
              match digits? isDigit rest with
              | some (ds, r) => (e :: ds, r)
              | none => ([], cs)
        | [] => ([], cs)
      else
        ([], cs)
  | [] => ([], [])

def bigMark (cs : List Char) : List Char × List Char :=
  match cs with
  | 'n' :: rest => (['n'], rest)
  | _ => ([], cs)

def radixNumber? (zero mark : Char) (isDigit : Char -> Bool) (rest : List Char) :
    Option (List Char × List Char) := do
  let (ds, rest) ← digits? isDigit rest
  let (n, rest) := bigMark rest
  return (zero :: mark :: ds ++ n, rest)

/-- Whether a point or an exponent may follow digits: at most one zero stands in front
of them, and none with an underscore behind it. -/
def isWholePart (digits : List Char) : Bool :=
  match digits with
  | ['0'] => true
  | '0' :: d :: _ => isDigit d && d != '0'
  | _ => true

def decimalNumber? (cs : List Char) : Option (List Char × List Char) :=
  match cs with
  | '.' :: rest => do
      let (ds, rest) ← digits? isDigit rest
      let (e, rest) := exponent rest
      return ('.' :: ds ++ e, rest)
  | _ => do
      let (ds, rest) ← digits? isDigit cs
      match rest with
      | 'n' :: rest => return (ds ++ ['n'], rest)
      | '.' :: more =>
        if !isWholePart ds then
          return (ds, rest)
        else
          let (fs, more) := (digits? isDigit more).getD ([], more)
          let (e, more) := exponent more
          return (ds ++ '.' :: fs ++ e, more)
      | _ =>
        if !isWholePart ds then
          return (ds, rest)
        else
          let (e, rest) := exponent rest
          return (ds ++ e, rest)

def number? (cs : List Char) : Option (List Char × List Char) :=
  match cs with
  | '0' :: m :: rest =>
      let radix :=
        if m == 'x' || m == 'X' then radixNumber? '0' m isHexDigit rest
        else if m == 'o' || m == 'O' then radixNumber? '0' m isOctalDigit rest
        else if m == 'b' || m == 'B' then radixNumber? '0' m (fun c => c == '0' || c == '1') rest
        else none
      radix <|> decimalNumber? cs
  | _ => decimalNumber? cs

/-!
## Strings, templates and regular expressions

A string may not hold a line break, but blanks that start with one may stand in front
of its closing quote or of a comment; behind the comment the string goes on.
-/

/-- The text of a string after its opening quote, closing quote included. -/
def stringFrom (quote : Char) : Nat -> List Char -> Option (List Char × List Char)
  | 0, _ => none
  | fuel + 1, cs =>
      match cs with
      | [] => none
      | c :: rest =>
          if c == quote then
            some ([c], rest)
          else if c == '\\' then do
            let (s, rest) ← escape? rest
            let (more, rest) ← stringFrom quote fuel rest
            return ('\\' :: s ++ more, rest)
          else if c == '\n' || c == '\r' then
            let blank := cs.takeWhile isGap
            let rest := cs.dropWhile isGap
            match comment? rest with
            | some (s, rest) => do
                let (more, rest) ← stringFrom quote fuel rest
                return (blank ++ s ++ more, rest)
            | none =>
                match rest with
                | d :: rest => if d == quote then some (blank ++ [d], rest) else none
                | [] => none
          else do
            let (more, rest) ← stringFrom quote fuel rest
            return (c :: more, rest)

/-- A piece of a template, up to and with its closing quote or the opening of a
substitution; the flag tells whether the template is closed. -/
def templateFrom : Nat -> List Char -> Option (List Char × Bool × List Char)
  | 0, _ => none
  | fuel + 1, cs =>
      match cs with
      | [] => none
      | '`' :: rest => some (['`'], true, rest)
      | '$' :: '\x7b' :: rest => some (['$', '\x7b'], false, rest)
      | '\\' :: rest => do
          let (s, rest) ← escape? rest
          let (more, closed, rest) ← templateFrom fuel rest
          return ('\\' :: s ++ more, closed, rest)
      | c :: rest => do
          let (more, closed, rest) ← templateFrom fuel rest
          return (c :: more, closed, rest)

/-- The pattern of a regular expression after its opening slash, closing slash
included; `inClass` tells whether a character class is open. -/
def regexFrom : Bool -> List Char -> Option (List Char × List Char)
  | _, [] => none
  | inClass, '\\' :: c :: rest =>
      if c == '\n' then none
      else (regexFrom inClass rest).map fun (s, r) => ('\\' :: c :: s, r)
  | inClass, c :: rest =>
      if c == '\n' || c == '\\' then none
      else if c == '/' && !inClass then some ([c], rest)
      else
        let inClass := if c == '[' then true else if c == ']' then false else inClass
        (regexFrom inClass rest).map fun (s, r) => (c :: s, r)

/-- A regular expression after its opening slash, with its flags. -/
def regex? (cs : List Char) : Option (List Char × List Char) :=
  match cs with
  | '/' :: _ => none
  | _ => do
      let (s, rest) ← regexFrom false cs
      let isFlag (c : Char) : Bool := 'a' ≤ c && c ≤ 'z'
      return ('/' :: s ++ rest.takeWhile isFlag, rest.dropWhile isFlag)

/-!
## Tokens
-/

/-- The words after which an operand is still to come. -/
def awaitsOperand (w : List Char) : Bool :=
  ["return", "typeof", "case", "do", "else", "in", "instanceof", "new", "void", "delete", "throw",
    "yield", "await", "extends", "default", "as", "keyof"].any fun k => w == k.toList

/-- The kind and text of the next token, read in at most so many steps, and what
follows it.  The flags tell whether an operand was just finished and whether a
closing brace goes on with a template. -/
def next? (fuel : Nat) (operand inTemplate : Bool) (cs : List Char) : Option (TokenKind × List Char × List Char) :=
  match cs with
  | [] => none
  | c :: rest =>
      if c == '"' || c == '\'' then do
        let (s, rest) ← stringFrom c fuel rest
        return (.string, c :: s, rest)
      else if c == '`' then do
        let (s, closed, rest) ← templateFrom fuel rest
        return (if closed then .template else .templateHead, c :: s, rest)
      else if c == '\x7d' && inTemplate then do
        let (s, closed, rest) ← templateFrom fuel rest
        return (if closed then .templateTail else .templateMiddle, c :: s, rest)
      else if c == '#' then
        match rest with
        | '!' :: _ => return (.interpreterLine, cs.takeWhile (· != '\n'), cs.dropWhile (· != '\n'))
        | _ => do
            let (s, rest) ← name? fuel rest
            return (.privateName, c :: s, rest)
      else if isDigit c then do
        let (s, rest) ← number? cs
        return (.number, s, rest)
      else
        match cs with
        | '.' :: '.' :: '.' :: rest => return (.mark, ['.', '.', '.'], rest)
        | '+' :: '+' :: rest => return (.mark, ['+', '+'], rest)
        | '-' :: '-' :: rest => return (.mark, ['-', '-'], rest)
        | '.' :: d :: _ =>
            if isDigit d && !operand then do
              let (s, more) ← number? cs
              return (.number, s, more)
            else
              return (.mark, [c], rest)
        | '/' :: _ =>
            if operand then
              return (.mark, [c], rest)
            else do
              let (s, rest) ← regex? rest
              return (.regex, s, rest)
        | _ =>
            if "\x7b\x7d()[];,<>+-*%&|^!~?:=.@".toList.contains c then
              return (.mark, [c], rest)
            else do
              let (s, rest) ← name? fuel cs
              return (.word, s, rest)

def endsOperand (operand : Bool) (kind : TokenKind) (text : List Char) : Bool :=
  match kind with
  | .word => !awaitsOperand text
  | .templateHead => false
  | .templateMiddle => false
  | .mark =>
      if text == ['+', '+'] || text == ['-', '-'] then operand
      else text == [')'] || text == [']'] || text == ['\x7d']
  | _ => true

/-- The open braces of each template substitution that surrounds the place,
innermost first, after a token. -/
def bracesAfter (open? : List Nat) (kind : TokenKind) (text : List Char) : List Nat :=
  match kind, open? with
  | .templateHead, _ => 0 :: open?
  | .templateTail, _ :: outer => outer
  | .mark, n :: outer =>
      if text == ['\x7b'] then (n + 1) :: outer
      else if text == ['\x7d'] then (n - 1) :: outer
      else open?
  | _, _ => open?

/-- The tokens of a text that starts on `row`, which has at most so many characters.
Each token is read in as many steps. -/
def tokensFrom : Nat -> List Nat -> Bool -> Nat -> List Char -> Option (List Token)
  | 0, _, _, _, _ => none
  | fuel + 1, braces, operand, row, cs =>
      let (trivia, rest) := gap (fuel + 1) row cs
      let row := row + Text.lineFeeds (trivia.flatMap Trivia.text)
      match rest with
      | [] => if braces.isEmpty then some [⟨trivia, .endOfSource, [], row⟩] else none
      | _ => do
          let (kind, text, rest) ← next? (fuel + 1) operand (braces.head? == some 0) rest
          let more ← tokensFrom fuel (bracesAfter braces kind text) (endsOperand operand kind text)
            (row + Text.lineFeeds text) rest
          return ⟨trivia, kind, text, row⟩ :: more

end Lexer

def tokens? (source : List Char) : Option (List Token) :=
  if source.contains '\x00' then none
  else Lexer.tokensFrom (source.length + 1) [] false 0 source

end TypeScript
end SchemaTypes
