import SchemaTypes.Proofs.Cli.Preview
import SchemaTypes.Proofs.Host.Outcome
import SchemaTypes.Proofs.Host.RequestLine

/-!
# Generating for a host and from a file

A payload can be sent by a host or stand in a file that a command line names.  Both ways
generate the same, they fail in the same step for the same reason, and they leave the
same files.  Only a text that is nested as deep as a text can be is too deep on the line of
a request.
-/

namespace SchemaTypes
namespace Host

def HasPayloadKey (params : Json) : Prop :=
  (params.member? "generator").isSome = true \/ (params.member? "dmmf").isSome = true

/-- The outcome of a request and the run of a command come to the same end.  A failure that
both tell has one text, which the command puts behind words of its own. -/
inductive Agree (input : Path) : Except (Halt Failure) Json -> Run -> Prop where
  | written {r : Run} (hcode : r.code = 0) (hfailure : r.failure? = none) :
      Agree input (.ok .null) r
  | undecoded {r : Run} {f : Failure} (fault : ShapeFault) (hf : f = .invalidParams fault)
      (hcode : r.code = 1) (hfailure : r.failure? = some (.input input (.shape fault)))
      (hanswer : f.message = "Invalid generator options: " ++ fault.message)
      (htext : (CommandError.input input (.shape fault)).message =
        "Invalid DMMF input " ++ String.ofList input ++ ": " ++ fault.message) :
      Agree input (.error (.failure f)) r
  | failed {r : Run} {f : Failure} (e : GenerateError) (hf : f = .ofGenerateError e)
      (hcode : r.code = 1) (hfailure : r.failure? = some (.generate e))
      (htext : (CommandError.generate e).message = "Failed to generate types: " ++ f.message) :
      Agree input (.error (.failure f)) r
  | panicked {r : Run} (hcode : r.code = Run.panicCode) (hfailure : r.failure? = none) :
      Agree input (.error .panic) r

theorem agree_undecoded (input : Path) (printed : List Char) (events : List Event)
    (fault : ShapeFault) :
    Agree input (.error (.failure (.invalidParams fault)))
      (.fail printed events (.input input (.shape fault))) :=
  .undecoded fault rfl rfl (Run.failure?_fail _ _ _) rfl rfl

theorem agree_halted (input : Path) (printed : List Char) (events : List Event)
    (halt : Halt GenerateError) :
    Agree input (.error (halt.map .ofGenerateError)) (.halt printed events halt) := by
  cases halt with
  | failure e => exact .failed e rfl rfl (Run.failure?_fail _ _ _) rfl
  | panic => exact .panicked rfl (Run.failure?_panic _ _)

theorem agree_written (input : Path) (printed : List Char) (events : List Event) :
    Agree input (.ok .null) (.ok printed events) :=
  .written rfl (Run.failure?_ok _ _)

theorem payload_of_object {t : FileTree} {input : Path} {text : List Char} {params : Json}
    (hfile : t.readFile input = .ok (Text.encode text)) (hparse : Json.parse text = .ok params)
    (hkey : HasPayloadKey params) :
    t.payload input =
      match Payload.decode params with
      | .error fault => .error (.input input (.shape fault))
      | .ok p => .ok p := by
  have hread : Payload.read text =
      match Payload.decode params with
      | .error fault => .error (.shape fault)
      | .ok p => .ok p := by
    have hpayload : Payload.ofJson params = Payload.decode params := by
      rw [Payload.ofJson, if_pos (Bool.or_eq_true_iff.mpr hkey)]
    cases hdecode : Payload.decode params with
    | error fault => simp only [Payload.read, hparse, hpayload, hdecode]
    | ok p => simp only [Payload.read, hparse, hpayload, hdecode]
  rw [FileTree.payload, FileTree.text_of_readFile hfile]
  dsimp only
  rw [hread]
  cases Payload.decode params <;> rfl

theorem agree_generated [TypeScript.Recovery] {t : FileTree} {input : Path} {params : Json}
    (hpayload : t.payload input =
      match Payload.decode params with
      | .error fault => .error (.input input (.shape fault))
      | .ok p => .ok p) :
    let hosted := generated FileTree.disk params t
    let offline := (Command.runGenerate FileTree.disk input {} false).run t
    offline.2 = hosted.2 /\ Agree input hosted.1 offline.1 := by
  dsimp only
  rw [Command.run_runGenerate, hpayload, generated]
  cases Payload.decode params with
  | error fault => exact ⟨rfl, agree_undecoded _ _ _ _⟩
  | ok p =>
      dsimp only
      cases p.settings {} with
      | error e => exact ⟨rfl, agree_halted _ _ _ (.failure _)⟩
      | ok s =>
          dsimp only
          cases s.generate p.datamodel with
          | error halt => exact ⟨rfl, agree_halted _ _ _ halt⟩
          | ok g =>
              have houtput : FileTree.disk.output false g.path g.content =
                  FileTree.disk.writeOutput g.path g.content := rfl
              dsimp only
              rw [houtput]
              cases (FileTree.disk.writeOutput g.path g.content).run t with
              | mk answer u =>
                  cases answer with
                  | error e => exact ⟨rfl, agree_halted _ _ _ (.failure _)⟩
                  | ok w => exact ⟨rfl, agree_written _ _ _⟩

theorem ne_nil_of_readFile {t : FileTree} {path : Path} {bytes : List UInt8}
    (h : t.readFile path = .ok bytes) : path ≠ [] := by
  rintro rfl
  cases h

theorem lines_requestText {text : List Char} (h : '\n' ∉ text) :
    lines (Text.encode (requestText text)) = [Text.encode (requestText text)] := by
  have hobject : '\n' ∉ Response.objectText
      [Response.memberText "method" (Json.ofText "generate").compact,
        Response.memberText "params" text] := by
    intro hmem
    change '\n' ∈ '\x7b' :: '"' :: ("method".toList ++ '"' :: ':' :: '"' ::
      ("generate".toList ++ '"' :: ',' :: '"' :: ("params".toList ++ '"' :: ':' ::
        (text ++ ['\x7d'])))) at hmem
    simp [h] at hmem
  rw [← Text.feed_mem_encode] at hobject
  have hencode : Text.encode (requestText text) = Text.encode (Response.objectText
      [Response.memberText "method" (Json.ofText "generate").compact,
        Response.memberText "params" text]) ++ [10] :=
    List.flatMap_append
  rw [hencode]
  exact lines_line hobject

/-- A host that is sent the payload of a file, on any line that holds it, comes to what a
command line for that file comes to: the same tree, and a success, the same failure or a
panic.  The text of the payload itself can be put on such a line, unless it is nested as deep
as a text can be: then the line is refused for its depth. -/
theorem agrees_with_command_line [TypeScript.Recovery] (t : FileTree) (input : Path)
    (text : List Char) (params : Json) (stdin : List UInt8)
    (hfile : t.readFile input = .ok (Text.encode text)) (hparse : Json.parse text = .ok params)
    (hkey : HasPayloadKey params) :
    let offline := ((Invocation.parse ["generate".toList, Invocation.inputArgument input]).run
      FileTree.disk stdin).run t
    (forall line q, lines line = [line] -> request? line = some q ->
      q.method = "generate".toList -> q.params = params ->
        let hosted := (serve FileTree.disk line).run t
        hosted.2 = offline.2 /\
          exists outcome, Agree input outcome offline.1 /\
            responses hosted.1.entries = (Response.of? q.id outcome).toList /\
            hosted.1.panicked = (Response.of? q.id outcome).isNone) /\
    ('\n' ∉ text ->
      let line := Text.encode (requestText text)
      let hosted := (serve FileTree.disk line).run t
      lines line = [line] /\
      (Json.IsWithin (Reader.greatestDepth - 1) text -> request? line = some (requestFor params)) /\
      (request? line = some (requestFor params) \/
        exists e : SyntaxError, e.problem = .tooDeep /\
          responses hosted.1.entries = [⟨.null, .error (.malformed e.message)⟩] /\
          hosted.2 = t)) := by
  intro offline
  have hoffline : offline = (Command.runGenerate FileTree.disk input {} false).run t := by
    change ((Invocation.parse _).run FileTree.disk stdin).run t = _
    rw [Invocation.parse_inputArgument (ne_nil_of_readFile hfile)]
    rfl
  rcases agree_generated (payload_of_object hfile hparse hkey) with ⟨htree, hagree⟩
  rw [← hoffline, ← run_generate] at htree hagree
  constructor
  · intro line q hlines hline hmethod hparams hosted
    rcases serve_generate FileTree.disk hlines hline hmethod t with
      ⟨hresponses, hpanicked, hserved⟩
    rw [hparams] at hresponses hpanicked hserved
    constructor
    · rw [htree]
      exact hserved
    · exact ⟨_, hagree, hresponses, hpanicked⟩
  · intro hfeed line hosted
    have hlines := lines_requestText hfeed
    refine ⟨hlines, fun hwithin => ?_, ?_⟩
    · exact request_of_parse (parse_requestText_of_isWithin hparse hwithin)
    · cases parse_requestText hparse with
      | inl hrequest => exact .inl (request_of_parse hrequest)
      | inr hdeep =>
          rcases hdeep with ⟨e, hproblem, herror⟩
          have hblank : Text.allBlank (requestText text) = false := by
            rw [requestText_eq]
            rfl
          exact .inr ⟨e, hproblem, serve_refused FileTree.disk hlines hblank herror t⟩

def sampleText : List Char :=
  ["\x7b\"generator\":\x7b\"output\":\x7b\"value\":\"o\"\x7d\x7d,",
    "\"dmmf\":\x7b\"datamodel\":\x7b\"models\":[\x7b\"name\":\"A\"\x7d]\x7d\x7d\x7d"].flatMap
      String.toList

def sampleParams : Json :=
  .object
    [("dmmf".toList, .object
        [("datamodel".toList, .object
          [("models".toList, .array [.object [("name".toList, .ofText "A")]])])]),
      ("generator".toList, .object
        [("output".toList, .object [("value".toList, .ofText "o")])])]

def sampleTree : FileTree :=
  { entries := [(["d.json".toList], .file (Text.encode sampleText))] }

theorem agrees_with_command_line_sample :
    (sampleTree.readFile "d.json".toList = .ok (Text.encode sampleText) /\
        Json.parse sampleText = .ok sampleParams /\ HasPayloadKey sampleParams /\
        '\n' ∉ sampleText /\ Json.IsWithin (Reader.greatestDepth - 1) sampleText) /\
      let line := Text.encode (requestText sampleText)
      let hosted := (serve FileTree.disk line).run sampleTree
      let offline := ((Invocation.parse ["generate".toList, "--dmmf=d.json".toList]).run
        FileTree.disk []).run sampleTree
      request? line = some (requestFor sampleParams) /\ hosted.2 = offline.2 /\
        exists outcome, Agree "d.json".toList outcome offline.1 /\
          responses hosted.1.entries = (Response.of? .null outcome).toList := by
  have hfile : sampleTree.readFile "d.json".toList = .ok (Text.encode sampleText) := by cbv
  have hparse : Json.parse sampleText = .ok sampleParams := by cbv
  have hkey : HasPayloadKey sampleParams := .inl (by decide)
  have hfeed : '\n' ∉ sampleText := by decide +kernel
  have hwithin : Json.IsWithin (Reader.greatestDepth - 1) sampleText := ⟨sampleParams, by cbv⟩
  rcases agrees_with_command_line sampleTree "d.json".toList sampleText sampleParams []
    hfile hparse hkey with ⟨hagrees, hsent⟩
  rcases hsent hfeed with ⟨hlines, hrequest, _⟩
  rcases hagrees _ _ hlines (hrequest hwithin) rfl rfl with
    ⟨htree, outcome, hagree, hresponses, _⟩
  exact ⟨⟨hfile, hparse, hkey, hfeed, hwithin⟩, hrequest hwithin, htree, outcome, hagree,
    hresponses⟩

/-- A payload that is nested as deep as a text can be, with a key that is passed over. -/
def deepText : List Char :=
  "\x7b\"generator\":\x7b\"output\":\x7b\"value\":\"o\"\x7d\x7d,\"x\":".toList ++
    List.replicate 126 '[' ++ List.replicate 126 ']' ++ ['\x7d']

def deepTree : FileTree :=
  { entries := [(["d.json".toList], .file (Text.encode deepText))] }

/-- The command writes what the payload in the file asks for, and the host is refused. -/
theorem command_line_goes_deeper :
    let hosted := (serve FileTree.disk (Text.encode (requestText deepText))).run deepTree
    let offline := ((Invocation.parse ["generate".toList, "--dmmf=d.json".toList]).run
      FileTree.disk []).run deepTree
    (deepTree.readFile "d.json".toList = .ok (Text.encode deepText) /\
        exists params, Json.parse deepText = .ok params /\ HasPayloadKey params) /\
      (offline.1.code = 0 /\ offline.2.readFile "o/index.ts".toList = .ok []) /\
      (responses hosted.1.entries).map Response.code? = [some (-32700)] /\
      hosted.2.readFile "o/index.ts".toList ≠ offline.2.readFile "o/index.ts".toList := by
  have hkey : ((Json.parse deepText).toOption.any fun params =>
      (params.member? "generator").isSome) = true := by
    decide +kernel
  cases hparse : Json.parse deepText with
  | error e =>
      rw [hparse] at hkey
      cases hkey
  | ok params =>
      rw [hparse] at hkey
      exact ⟨⟨by decide +kernel, params, rfl, .inl hkey⟩, by decide +kernel, by decide +kernel,
        by decide +kernel⟩

end Host
end SchemaTypes
