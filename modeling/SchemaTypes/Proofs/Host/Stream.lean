import SchemaTypes.Host.Service
import SchemaTypes.Proofs.Json.OneLine
import SchemaTypes.Proofs.Text.Utf8

/-!
# The stream to a host

A stream of bytes is cut into lines behind its line feeds.  A response is sent as the
compact text of one JSON object, which holds no line feed of its own, so the responses
are the lines of what is sent.
-/

namespace SchemaTypes

/-!
## Responses as objects

The text of a response is the compact text of one object.
-/

namespace Failure

def json (f : Failure) : Json :=
  .object
    ([("code".toList, .number (.integer f.code)), ("message".toList, .ofText f.message)] ++
      (f.data.map fun o => ("data".toList, Json.object o)).toList)

end Failure

namespace Response

def outcomeMember (r : Response) : List Char × Json :=
  match r.outcome with
  | .ok result => ("result".toList, result)
  | .error f => ("error".toList, f.json)

def json (r : Response) : Json :=
  .object [("jsonrpc".toList, .ofText "2.0"), ("id".toList, r.id), r.outcomeMember]

def code? (r : Response) : Option Int :=
  match r.outcome with
  | .ok _ => none
  | .error f => some f.code

def line (r : Response) : List UInt8 :=
  Text.encode r.text ++ [10]

theorem compactMembers_eq_joinWith (members : List (List Char × Json)) :
    Json.compactMembers members =
      Text.joinWith [','] (members.map fun m => Json.printText m.1 ++ ':' :: m.2.compact) := by
  induction members with
  | nil =>
      rfl
  | cons m rest ih =>
      cases rest with
      | nil =>
          rfl
      | cons n more =>
          have hmore :
              Json.compactMembers (m :: n :: more) =
                Json.printText m.1 ++ ':' :: m.2.compact ++ ',' :: Json.compactMembers (n :: more) :=
            rfl
          rw [hmore, ih]
          simp [Text.joinWith]

theorem objectText_eq_compact (members : List (List Char × Json)) :
    objectText (members.map fun m => Json.printText m.1 ++ ':' :: m.2.compact) =
      (Json.object members).compact := by
  simp [objectText, Json.compact, compactMembers_eq_joinWith]

theorem failureText_eq_compact (f : Failure) : failureText f = f.json.compact := by
  unfold Failure.json
  rw [← objectText_eq_compact]
  cases hdata : f.data with
  | none => simp [failureText, memberText, hdata]
  | some o => simp [failureText, memberText, hdata]

theorem text_eq_compact (r : Response) : r.text = r.json.compact := by
  unfold json
  rw [← objectText_eq_compact]
  cases houtcome : r.outcome with
  | ok result => simp [text, memberText, outcomeMember, houtcome]
  | error f => simp [text, memberText, outcomeMember, houtcome, failureText_eq_compact]

theorem feed_not_mem_encode_text (r : Response) : 10 ∉ Text.encode r.text := by
  rw [Text.feed_mem_encode, text_eq_compact]
  exact Json.newline_not_mem_compact r.json

end Response

/-!
## Lines of a stream
-/

namespace Host

theorem lines_eq_nil {bytes : List UInt8} : lines bytes = [] <-> bytes = [] := by
  constructor
  · intro h
    cases bytes with
    | nil =>
        rfl
    | cons b rest =>
        exfalso
        rw [lines] at h
        split at h
        · exact List.cons_ne_nil _ _ h
        · split at h
          · exact List.cons_ne_nil _ _ h
          · exact List.cons_ne_nil _ _ h
  · intro h
    rw [h]
    rfl

theorem lines_append_feed (before after : List UInt8) :
    lines (before ++ 10 :: after) = lines (before ++ [10]) ++ lines after := by
  induction before with
  | nil =>
      simp [lines]
  | cons b rest ih =>
      by_cases hb : b = 10
      · simp [lines, hb, ih]
      · have hne : lines (rest ++ [10]) ≠ [] := by
          intro h
          simpa using lines_eq_nil.mp h
        obtain ⟨l, more, hcons⟩ := List.exists_cons_of_ne_nil hne
        rw [List.cons_append, List.cons_append, lines, lines, ih, hcons]
        simp [hb]

theorem lines_line {l : List UInt8} (hl : 10 ∉ l) : lines (l ++ [10]) = [l ++ [10]] := by
  induction l with
  | nil =>
      rfl
  | cons b rest ih =>
      rw [List.mem_cons, not_or] at hl
      have hb : b ≠ 10 := fun h => hl.left h.symm
      simp [lines, hb, ih hl.right]

end Host

end SchemaTypes
