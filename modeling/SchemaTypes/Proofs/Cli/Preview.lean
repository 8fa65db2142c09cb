import SchemaTypes.Proofs.Cli.Arguments
import SchemaTypes.Proofs.Cli.Check
import SchemaTypes.Proofs.Generation

/-!
# Previews

A preview takes the same steps as a generation and keeps the content from the disk.  It
shows what the generation would write and where, and it fails where the generation would
fail before it writes.
-/

namespace SchemaTypes

variable {σ : Type}

/-!
## Failures of runs
-/

namespace Notice

def failure? : Notice -> Option CommandError
  | failure e => some e
  | _ => none

end Notice

namespace Run

def failure? (r : Run) : Option CommandError :=
  r.notices.findSome? Notice.failure?

theorem failure?_events (events : List Event) (more : List Notice) :
    (events.map (fun e => Notice.entry (.event e)) ++ more).findSome? Notice.failure? =
      more.findSome? Notice.failure? := by
  induction events with
  | nil => rfl
  | cons e rest ih => exact ih

theorem failure?_ok (printed : List Char) (events : List Event) :
    (ok printed events).failure? = none := by
  have h := failure?_events events []
  rwa [List.append_nil] at h

theorem failure?_fail (printed : List Char) (events : List Event) (e : CommandError) :
    (fail printed events e).failure? = some e :=
  failure?_events events [.failure e]

theorem failure?_panic (printed : List Char) (events : List Event) :
    (panic printed events).failure? = none :=
  failure?_events events [.panic]

end Run

/-!
## Generations on a file tree
-/

namespace Command

/-- What a generation has printed when it starts to write. -/
def started (p : Payload) : List Char :=
  loading ++ foundText p.datamodel ++ generating

/-- A generation and its preview stop at the first step that fails, and the tree is changed
by the last one only. -/
theorem run_runGenerate [TypeScript.Recovery] (input : Path) (o : Overrides) (keep : Bool) (t : FileTree) :
    (runGenerate FileTree.disk input o keep).run t =
      match t.payload input with
      | .error e => (.fail loading [] e, t)
      | .ok p =>
          match p.settings o with
          | .error e =>
              (.fail (loading ++ foundText p.datamodel) (p.events o) (.generate (.settings e)), t)
          | .ok s =>
              match s.generate p.datamodel with
              | .error halt => (.halt (started p) (p.events o ++ p.datamodel.events) halt, t)
              | .ok g =>
                  match (FileTree.disk.output keep g.path g.content).run t with
                  | (.error e, u) =>
                      (.fail (started p) (p.events o ++ p.datamodel.events) (.generate (.write e)), u)
                  | (.ok w, u) =>
                      (.ok (started p ++ resultText w)
                        (p.events o ++ (p.datamodel.events ++ w.events ++ [g.event w])), u) := by
  unfold runGenerate
  rw [run_step, FileTree.run_load]
  cases t.payload input with
  | error e => rfl
  | ok p =>
      dsimp only
      cases p.settings o with
      | error e => rfl
      | ok s =>
          dsimp only
          rw [run_step, Settings.run_write_output]
          cases s.generate p.datamodel with
          | error e => rfl
          | ok g =>
              dsimp only
              cases (FileTree.disk.output keep g.path g.content).run t with
              | mk answer u => cases answer <;> rfl

/-!
## Runs that keep the tree
-/

end Command

namespace Invocation

end Invocation

/-!
## What a preview foretells
-/

namespace Run

end Run

namespace Command

end Command
end SchemaTypes
