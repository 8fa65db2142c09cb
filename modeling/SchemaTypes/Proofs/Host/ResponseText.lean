import SchemaTypes.Proofs.Host.Stream
import SchemaTypes.Proofs.Json.ReadingBack

/-!
# Responses are read back

The object of a response is read back from its line with the members of a response: no id
is so deep, and no failure holds a number so great, that the line would not be read.
-/

namespace SchemaTypes

open Reader (greatestDepth)

theorem Json.IsReadable.mono {depth deeper : Nat} {j : Json} (h : j.IsReadable depth)
    (hdepth : depth ≤ deeper) : j.IsReadable deeper := by
  induction h generalizing deeper with
  | null => exact .null deeper
  | bool _ b => exact .bool deeper b
  | number _ hn => exact .number deeper hn
  | string _ s => exact .string deeper s
  | array _ ih =>
      rcases Nat.exists_eq_succ_of_ne_zero (Nat.ne_of_gt (Nat.zero_lt_of_lt hdepth)) with ⟨d, rfl⟩
      exact .array fun j hj => ih j hj (Nat.le_of_succ_le_succ hdepth)
  | object _ ih =>
      rcases Nat.exists_eq_succ_of_ne_zero (Nat.ne_of_gt (Nat.zero_lt_of_lt hdepth)) with ⟨d, rfl⟩
      exact .object fun e he => ih e he (Nat.le_of_succ_le_succ hdepth)

/-!
## Failures
-/

namespace Failure

/-- A failure with a code of 64 bits and with data that are not deep. -/
structure IsReadable (f : Failure) : Prop where
  code : -2 ^ 63 ≤ f.code /\ f.code < 2 ^ 64
  data : forall o, f.data = some o -> (Json.object o).IsReadable 1

theorem isReadable_malformed (reason : String) : (malformed reason).IsReadable where
  code := by
    change -2 ^ 63 ≤ (-32700 : Int) /\ (-32700 : Int) < 2 ^ 64
    decide
  data := by
    intro o h
    cases h

theorem isReadable_unknownMethod (method : List Char) : (unknownMethod method).IsReadable where
  code := by
    change -2 ^ 63 ≤ (-32601 : Int) /\ (-32601 : Int) < 2 ^ 64
    decide
  data := by
    intro o h
    cases h

theorem isReadable_invalidParams (fault : ShapeFault) : (invalidParams fault).IsReadable where
  code := by
    change -2 ^ 63 ≤ (-32000 : Int) /\ (-32000 : Int) < 2 ^ 64
    decide
  data := by
    intro o h
    cases h
    apply Json.IsReadable.object
    intro e he
    cases List.mem_singleton.mp he
    exact .string 0 _

theorem isReadable_ofGenerateError (e : GenerateError) : (ofGenerateError e).IsReadable where
  code := by
    change -2 ^ 63 ≤ (-32000 : Int) /\ (-32000 : Int) < 2 ^ 64
    decide
  data := by
    intro o h
    cases h
    apply Json.IsReadable.object
    intro e he
    rcases List.mem_cons.mp he with rfl | he
    · exact .bool 0 _
    · cases List.mem_singleton.mp he
      exact .string 0 _

theorem IsReadable.json {f : Failure} (h : f.IsReadable) : f.json.IsReadable 2 := by
  apply Json.IsReadable.object
  intro e he
  rcases List.mem_append.mp he with he | he
  · rcases List.mem_cons.mp he with rfl | he
    · exact .number 1 h.code
    · cases List.mem_singleton.mp he
      exact .string 1 _
  · cases hdata : f.data with
    | none =>
        rw [hdata] at he
        cases he
    | some o =>
        rw [hdata] at he
        cases List.mem_singleton.mp he
        exact h.data o hdata

end Failure

/-!
## Responses
-/

namespace Response

variable {r : Response}

def IsReadable (r : Response) : Prop :=
  r.json.IsReadable greatestDepth

theorem isReadable_of_parts (hid : r.id.IsReadable (greatestDepth - 1))
    (houtcome : r.outcomeMember.2.IsReadable 3) : r.IsReadable := by
  apply Json.IsReadable.object
  intro e he
  rcases List.mem_cons.mp he with rfl | he
  · exact .string _ _
  · rcases List.mem_cons.mp he with rfl | he
    · exact hid
    · cases List.mem_singleton.mp he
      exact houtcome.mono (by decide)

theorem isReadable_error {f : Failure} {id : Json} (hid : id.IsReadable (greatestDepth - 1))
    (hf : f.IsReadable) : (Response.mk id (.error f)).IsReadable :=
  isReadable_of_parts hid (hf.json.mono (by decide))

theorem isReadable_ok {result id : Json} (hid : id.IsReadable (greatestDepth - 1))
    (hresult : result.IsReadable 3) : (Response.mk id (.ok result)).IsReadable :=
  isReadable_of_parts hid hresult

theorem isReadable_manifest : (Json.object [("manifest".toList, manifest)]).IsReadable 3 := by
  apply Json.IsReadable.object
  intro e he
  cases List.mem_singleton.mp he
  apply Json.IsReadable.object
  intro e he
  rcases List.mem_cons.mp he with rfl | he
  · exact .string 1 _
  · cases List.mem_singleton.mp he
    apply Json.IsReadable.array
    intro j hj
    cases List.mem_singleton.mp hj
    exact .string 0 _

theorem IsReadable.parse_line (h : r.IsReadable) : Json.parse (r.text ++ ['\n']) = .ok r.json.reread := by
  rw [text_eq_compact]
  exact Json.parse_compact h (.inr rfl)

end Response
end SchemaTypes
