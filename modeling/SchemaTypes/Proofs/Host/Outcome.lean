import SchemaTypes.Host.Service
import SchemaTypes.Proofs.Generation

/-!
# Outcomes of requests

A request to generate goes from one step to the next one until a step fails or the program
panics.  Its outcome and the disk behind it are told here apart from the events on the way.
-/

namespace SchemaTypes
namespace Host

variable {σ : Type} [TypeScript.Recovery]

/-- The outcome of a generation with the given params, and the disk behind it. -/
def generated (disk : Disk (StateM σ)) (params : Json) (t : σ) :
    Except (Halt Failure) Json × σ :=
  match Payload.decode params with
  | .error fault => (.error (.failure (.invalidParams fault)), t)
  | .ok p =>
      match p.settings {} with
      | .error e => (.error (.failure (.ofGenerateError (.settings e))), t)
      | .ok s =>
          match s.generate p.datamodel with
          | .error halt => (.error (halt.map .ofGenerateError), t)
          | .ok g =>
              match (disk.writeOutput g.path g.content).run t with
              | (.error e, u) => (.error (.failure (.ofGenerateError (.write e))), u)
              | (.ok _, u) => (.ok .null, u)

theorem run_generate (disk : Disk (StateM σ)) (params : Json) (t : σ) :
    (((generate disk params).run t).1.answer, ((generate disk params).run t).2) =
      generated disk params t := by
  unfold generate generated
  cases Payload.decode params with
  | error fault => rfl
  | ok p =>
      dsimp only
      unfold Payload.generate
      cases p.settings {} with
      | error e => rfl
      | ok s =>
          dsimp only
          simp only [run_step, Settings.run_write]
          cases s.generate p.datamodel with
          | error e => rfl
          | ok g =>
              dsimp only
              cases (disk.writeOutput g.path g.content).run t with
              | mk answer u => cases answer <;> rfl

end Host
end SchemaTypes
