import SchemaTypes.Payload
import SchemaTypes.Proofs.Json.Enclosing

/-!
# Shapes of payloads

A datamodel may stand alone, in a document or in a whole payload.  Whichever of the three a
text holds, the same payload is read from it, or the same fault is found in the datamodel.
-/

namespace SchemaTypes

open Decoder

/-- The value has no key of a document or of a payload, so that it stands for a datamodel. -/
structure Json.IsBare (j : Json) : Prop where
  generator : j.member? "generator" = none
  dmmf : j.member? "dmmf" = none
  datamodel : j.member? "datamodel" = none

/-- The text is read with arrays and objects at most so deep in each other. -/
def Json.IsWithin (depth : Nat) (s : List Char) : Prop :=
  exists j, Json.parseWithin depth s = .ok j

namespace Payload

variable {s : List Char} {j k : Json}

/-- What is read from a datamodel alone: a payload with the default generator block, or the
fault of the datamodel. -/
def ofDatamodel (j : Json) : Except ReadError Payload :=
  match Datamodel.decode j with
  | .ok d => .ok { datamodel := d }
  | .error fault => .error (.shape fault)

/-!
## Values
-/

theorem ofJson_bare (h : j.IsBare) :
    ofJson j = Datamodel.decode j >>= fun d => .ok { datamodel := d } := by
  rw [ofJson, h.generator, h.dmmf, h.datamodel]
  rfl

theorem decode_document (j : Json) :
    Document.decode (.object [("datamodel".toList, j)]) = Datamodel.decode j := by
  change (Datamodel.decode j).map some >>= present "datamodel" = _
  cases Datamodel.decode j <;> rfl

theorem ofJson_document (j : Json) :
    ofJson (.object [("datamodel".toList, j)]) =
      Datamodel.decode j >>= fun d => .ok { datamodel := d } := by
  rw [← decode_document j]
  rfl

theorem ofJson_payload (j : Json) :
    ofJson (.object [("dmmf".toList, .object [("datamodel".toList, j)])]) =
      Datamodel.decode j >>= fun d => .ok { datamodel := d } := by
  rw [← decode_document j]
  change (Document.decode _).map some >>= _ = _
  cases Document.decode (.object [("datamodel".toList, j)]) <;> rfl

/-!
## Texts
-/

theorem read_eq_ofDatamodel (hparse : Json.parse s = .ok k)
    (h : ofJson k = Datamodel.decode j >>= fun d => .ok { datamodel := d }) :
    read s = ofDatamodel j := by
  rw [read, hparse, ofDatamodel]
  dsimp only
  rw [h]
  cases Datamodel.decode j <;> rfl

theorem read_document (hparse : Json.parse s = .ok (.object [("datamodel".toList, j)])) :
    read s = ofDatamodel j :=
  read_eq_ofDatamodel hparse (ofJson_document j)

theorem read_payload
    (hparse : Json.parse s = .ok (.object [("dmmf".toList, .object [("datamodel".toList, j)])])) :
    read s = ofDatamodel j :=
  read_eq_ofDatamodel hparse (ofJson_payload j)

/-- A datamodel's text stands for the same payload alone, inside a document and inside a whole
payload, if two more levels around it are not too deep; so does every other text of the
document and of the payload. -/
theorem read_enclosed (hparse : Json.parse s = .ok j) (hbare : j.IsBare)
    (hwithin : Json.IsWithin (Reader.greatestDepth - 2) s) :
    read s = ofDatamodel j /\
      read (Json.enclose "datamodel" s) = ofDatamodel j /\
      read (Json.enclose "dmmf" (Json.enclose "datamodel" s)) = ofDatamodel j /\
      forall t u, Json.parse t = .ok (.object [("datamodel".toList, j)]) ->
        Json.parse u = .ok (.object [("dmmf".toList, .object [("datamodel".toList, j)])]) ->
        read t = ofDatamodel j /\ read u = ofDatamodel j := by
  obtain ⟨j', hinner⟩ := hwithin
  obtain rfl : j' = j := Json.parseWithin_unique (by decide) hinner hparse
  have hdocument : Json.parse (Json.enclose "datamodel" s) = _ :=
    Json.parseWithin_enclose rfl (by decide) hinner
  have hpayload : Json.parse (Json.enclose "dmmf" (Json.enclose "datamodel" s)) = _ :=
    Json.parseWithin_enclose rfl (Nat.le_refl _)
      (Json.parseWithin_enclose rfl (Nat.le_refl _) hinner)
  refine ⟨read_eq_ofDatamodel hparse (ofJson_bare hbare), read_document hdocument,
    read_payload hpayload, ?_⟩
  intro t u ht hu
  exact ⟨read_document ht, read_payload hu⟩

def userText : List Char :=
  "\x7b\"models\":[\x7b\"name\":\"User\"\x7d]\x7d".toList

def userJson : Json :=
  .object [("models".toList, .array [.object [("name".toList, .ofText "User")]])]

theorem read_enclosed_user :
    (Json.parse userText = .ok userJson /\ userJson.IsBare /\
        Json.IsWithin (Reader.greatestDepth - 2) userText) /\
      read userText = .ok { datamodel := { models := [{ name := "User".toList }] } } /\
      read (Json.enclose "dmmf" (Json.enclose "datamodel" userText)) =
        .ok { datamodel := { models := [{ name := "User".toList }] } } := by
  have hparse : Json.parse userText = .ok userJson := by cbv
  have hbare : userJson.IsBare := ⟨rfl, rfl, rfl⟩
  have hwithin : Json.IsWithin (Reader.greatestDepth - 2) userText := ⟨userJson, by cbv⟩
  obtain ⟨halone, _, hpayload, _⟩ := read_enclosed hparse hbare hwithin
  exact ⟨⟨hparse, hbare, hwithin⟩, halone, hpayload⟩

end Payload
end SchemaTypes
