import SchemaTypes.Proofs.Host.Service
import SchemaTypes.Proofs.Settings

/-!
# The stages of a generation request

A request to generate is taken through five stages.  Each of them can fail for itself,
whatever the others would do, and in one of them the program can panic.  The request has the
outcome of the first stage that does not end well, and nothing is on the disk that was not
there before, unless that is the last one.
-/

namespace SchemaTypes
namespace Host

variable {σ : Type}

/-!
## Stages
-/

/-- The stages of a generation, from the first to the last one. -/
inductive Stage where
  | params
  | config
  | validation
  | format
  | write
  deriving DecidableEq, Repr

namespace Stage

def all : List Stage := [params, config, validation, format, write]

/-- The name of a stage in what is told about a failure. -/
def kind : Stage -> String
  | params => "params"
  | config => "config"
  | validation => "validation"
  | format => "format"
  | write => "write"

end Stage

section

variable [TypeScript.Recovery]

def failed {ε α : Type} (failure : ε -> Failure) : Except ε α -> Option (Halt Failure)
  | .ok _ => none
  | .error e => some (.failure (failure e))

/-- The ends that a request can come to: the stage that has no result, if there is one, the
outcome and the disk behind it. -/
inductive Ends (disk : Disk (StateM σ)) (params : Json) (t : σ) :
    Option Stage -> Except (Halt Failure) Json -> σ -> Prop where
  | params {fault : ShapeFault} (hparams : Payload.decode params = .error fault) :
      Ends disk params t (some .params) (.error (.failure (.invalidParams fault))) t
  | config {p : Payload} {e : SettingsError} (hparams : Payload.decode params = .ok p)
      (hconfig : p.settings {} = .error e) :
      Ends disk params t (some .config) (.error (.failure (.ofGenerateError (.settings e)))) t
  | validation {p : Payload} {s : Settings} {clash : Clash}
      (hparams : Payload.decode params = .ok p) (hconfig : p.settings {} = .ok s)
      (hclash : p.datamodel.clash? = some clash) :
      Ends disk params t (some .validation)
        (.error (.failure (.ofGenerateError (.datamodel clash)))) t
  | format {p : Payload} {s : Settings} {halt : Halt FormatError}
      (hparams : Payload.decode params = .ok p) (hconfig : p.settings {} = .ok s)
      (hclash : p.datamodel.clash? = none)
      (hformat : SchemaTypes.format s.format p.datamodel.declaration = .error halt) :
      Ends disk params t (some .format)
        (.error (halt.map fun e => .ofGenerateError (.format e))) t
  | write {p : Payload} {s : Settings} {content : List Char} {e : WriteError} {u : σ}
      (hparams : Payload.decode params = .ok p) (hconfig : p.settings {} = .ok s)
      (hclash : p.datamodel.clash? = none)
      (hformat : SchemaTypes.format s.format p.datamodel.declaration = .ok content)
      (hwrite : (disk.writeOutput s.outputPath content).run t = (.error e, u)) :
      Ends disk params t (some .write) (.error (.failure (.ofGenerateError (.write e)))) u
  | written {p : Payload} {s : Settings} {content : List Char} {result : WriteResult} {u : σ}
      (hparams : Payload.decode params = .ok p) (hconfig : p.settings {} = .ok s)
      (hclash : p.datamodel.clash? = none)
      (hformat : SchemaTypes.format s.format p.datamodel.declaration = .ok content)
      (hwrite : (disk.writeOutput s.outputPath content).run t = (.ok result, u)) :
      Ends disk params t none (.ok .null) u

section

variable {disk : Disk (StateM σ)} {params : Json} {t u : σ} {stage? : Option Stage}
  {outcome : Except (Halt Failure) Json}

end

end

/-!
## What is told about failures
-/

section

variable [TypeScript.Recovery] {disk : Disk (StateM σ)} {params : Json} {t : σ} {stage : Stage}

end

/-!
## Requests on a file tree
-/

end Host
end SchemaTypes
