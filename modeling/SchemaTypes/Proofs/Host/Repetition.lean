import Mathlib.Data.List.Forall2
import SchemaTypes.Proofs.Disk.Rewriting
import SchemaTypes.Proofs.Host.Outcome
import SchemaTypes.Proofs.Host.Service
import SchemaTypes.Proofs.Settings

/-!
# Sending a stream again

A host that sends the same stream again gets the same answers and finds the same files, and
a program that has panicked at a line of it panics there again.
Only the words of one failure can differ: where a file is in the way of a directory, the
second run can find it there earlier than the first one, which had still to make the
directories before it.
-/

namespace SchemaTypes
namespace Host

open FileTree (Repeats AnswersAgain Climbs)

/-!
## One request
-/

/-- The failure of a generation that can not make a directory. -/
def blockedBy (path : Path) (fault : DiskFault) : Failure :=
  .ofGenerateError (.write (.createDirectory path fault))

theorem message_of_blockedBy {path : Path} {fault other : DiskFault}
    (h : blockedBy path fault = blockedBy path other) :
    fault.message.toList = other.message.toList := by
  have hmessage := congrArg (fun f : Failure => f.message.toList) h
  change ("Failed to write output: " ++ ("Failed to create directory " ++ String.ofList path ++
      ": " ++ fault.message)).toList =
    ("Failed to write output: " ++ ("Failed to create directory " ++ String.ofList path ++
      ": " ++ other.message)).toList at hmessage
  simp only [String.toList_append] at hmessage
  exact List.append_cancel_left (List.append_cancel_left hmessage)

/-- The outcome of a request that is sent again.  It is the same, unless a file is in the
way of a directory, on a path that goes up if the files stand in directories. -/
inductive OutcomeAgain (rooted : Prop) : Except Failure Json -> Except Failure Json -> Prop
  | same (outcome : Except Failure Json) : OutcomeAgain rooted outcome outcome
  | blocked (path : Path) (hclimbs : rooted -> Climbs path) :
      OutcomeAgain rooted (.error (blockedBy path .exists)) (.error (blockedBy path .notDirectory))

structure AnsweredAgain (rooted : Prop) (first second : Response) : Prop where
  id : second.id = first.id
  outcome : OutcomeAgain rooted first.outcome second.outcome

variable {rooted : Prop} {t : FileTree}

theorem AnsweredAgain.refl (rooted : Prop) (r : Response) : AnsweredAgain rooted r r :=
  ⟨rfl, .same r.outcome⟩

theorem forall₂_answeredAgain (rooted : Prop) (rs : List Response) :
    List.Forall₂ (AnsweredAgain rooted) rs rs :=
  List.forall₂_same.mpr fun r _ => AnsweredAgain.refl rooted r

theorem isPlainName_of_settings {p : Payload} {o : Overrides} {s : Settings}
    (h : p.settings o = .ok s) : Path.isPlainName s.fileName = true := by
  obtain ⟨_, taken, _, _, hplain, hs⟩ := Payload.settings_eq_ok.mp h
  rw [hs]
  exact hplain

def writeOutcome : Except WriteError WriteResult -> Except Failure Json
  | .error e => .error (.ofGenerateError (.write e))
  | .ok _ => .ok .null

def responsesOf (id : Json) (outcome : Except (Halt Failure) Json) : List Response :=
  (Response.of? id outcome).toList

section

variable [TypeScript.Recovery]

/-- The responses to a request to generate and the tree that it leaves. -/
def generateRun (id params : Json) : StateM FileTree (List Response) :=
  fun t => (responsesOf id (generated FileTree.disk params t).1, (generated FileTree.disk params t).2)

theorem repeats_generate (hrooted : rooted -> t.IsRooted) (id params : Json) :
    exists ws, Repeats (List.Forall₂ (AnsweredAgain rooted)) (generateRun id params) t ws := by
  have hends : forall outcome, (forall v, generated FileTree.disk params v = (outcome, v)) ->
      exists ws, Repeats (List.Forall₂ (AnsweredAgain rooted)) (generateRun id params) t ws := by
    intro outcome hrun
    refine ⟨[], Repeats.of_unchanged (forall₂_answeredAgain rooted (responsesOf id outcome)) ?_⟩
    intro v
    change (responsesOf id (generated FileTree.disk params v).1, _) = _
    rw [hrun]
  cases hdecode : Payload.decode params with
  | error fault =>
      apply hends
      intro v
      rw [generated, hdecode]
  | ok p =>
      cases hsettings : p.settings {} with
      | error e =>
          apply hends
          intro v
          rw [generated, hdecode]
          dsimp only
          rw [hsettings]
      | ok s =>
          cases hgenerate : s.generate p.datamodel with
          | error halt =>
              apply hends
              intro v
              rw [generated, hdecode]
              dsimp only
              rw [hsettings]
              dsimp only
              rw [hgenerate]
          | ok g =>
              have hplain := isPlainName_of_settings hsettings
              obtain ⟨_, hidle, hup⟩ := Path.isPlainName_facts hplain
              obtain ⟨before, hsegments⟩ := Path.exists_segments_join hplain s.directory
              have hpath : Path.segments g.path = before ++ [s.fileName] := by
                rw [Settings.path_generate hgenerate, Settings.outputPath, hsegments]
              obtain ⟨ws, hwrite⟩ :=
                FileTree.repeats_writeOutput hpath hidle hup hrooted g.content
              refine ⟨ws, hwrite.of_answer (fun answer => [⟨id, writeOutcome answer⟩]) ?_ ?_⟩
              · intro a b hab
                cases hab with
                | same => exact forall₂_answeredAgain rooted _
                | blocked path hclimbs => exact .cons ⟨rfl, .blocked path hclimbs⟩ .nil
              · intro v
                change (responsesOf id (generated FileTree.disk params v).1, _) = _
                rw [generated, hdecode]
                dsimp only
                rw [hsettings]
                dsimp only
                rw [hgenerate]
                dsimp only
                generalize (FileTree.disk.writeOutput g.path g.content).run v = written
                obtain ⟨answer, u⟩ := written
                cases answer <;> rfl

def requestRun (q : Request) : StateM FileTree (List Response) :=
  fun t => (responsesOf q.id ((outcome FileTree.disk q).run t).1.answer,
    ((outcome FileTree.disk q).run t).2)

theorem repeats_request (hrooted : rooted -> t.IsRooted) (q : Request) :
    exists ws, Repeats (List.Forall₂ (AnsweredAgain rooted)) (requestRun q) t ws := by
  have hends : forall answer, (forall v, (outcome FileTree.disk q).run v = (⟨[], answer⟩, v)) ->
      exists ws, Repeats (List.Forall₂ (AnsweredAgain rooted)) (requestRun q) t ws := by
    intro answer hrun
    refine ⟨[], Repeats.of_unchanged (forall₂_answeredAgain rooted (responsesOf q.id answer)) ?_⟩
    intro v
    change (responsesOf q.id ((outcome FileTree.disk q).run v).1.answer, _) = _
    rw [hrun]
  by_cases hmanifest : String.ofList q.method = "getManifest"
  · apply hends
    intro v
    rw [outcome, hmanifest]
    rfl
  · by_cases hgenerate : String.ofList q.method = "generate"
    · have hrun : requestRun q = generateRun q.id q.params := by
        funext v
        have houtcome := run_generate FileTree.disk q.params v
        rw [requestRun, outcome, hgenerate, generateRun, ← houtcome]
        rfl
      rw [hrun]
      exact repeats_generate hrooted q.id q.params
    · apply hends
      intro v
      unfold outcome
      split
      · rename_i h
        exact absurd h hmanifest
      · rename_i h
        exact absurd h hgenerate
      · rfl

/-!
## Lines
-/

def lineRun (line : List UInt8) : StateM FileTree (List Response) :=
  fun t => (responses (served ((answerLine FileTree.disk line).run t).1).entries,
    ((answerLine FileTree.disk line).run t).2)

def linesRun (ls : List (List UInt8)) : StateM FileTree (List Response) :=
  fun t => (responses ((answerLines FileTree.disk ls).run t).1.entries,
    ((answerLines FileTree.disk ls).run t).2)

theorem run_lineRun_request {line : List UInt8} {s : List Char} {q : Request}
    (hdecode : Text.decode line = .ok s) (hblank : Text.allBlank s = false)
    (hparse : Request.parse s = .ok q) (v : FileTree) :
    (lineRun line).run v = (requestRun q).run v := by
  change (responses _, _) = _
  rw [answerLine, hdecode]
  dsimp only
  rw [hblank, answerText, hparse]
  change (responses (entries ((answerRequest FileTree.disk q).run v).1), _) = _
  rw [responses_entries]
  rfl

/-- A line is answered without the disk, or with the outcome of its request. -/
theorem lineRun_cases (line : List UInt8) :
    (exists rs, forall v, (lineRun line).run v = (rs, v)) \/
    (exists q : Request, forall v, (lineRun line).run v = (requestRun q).run v) := by
  cases hdecode : Text.decode line with
  | error e =>
      apply Or.inl
      refine ⟨(refuse "Request is not valid UTF-8" e.message).answer.toList, fun v => ?_⟩
      change (responses _, _) = _
      rw [answerLine, hdecode]
      rfl
  | ok s =>
      cases hblank : Text.allBlank s with
      | true =>
          apply Or.inl
          refine ⟨[], fun v => ?_⟩
          change (responses _, _) = _
          rw [answerLine, hdecode]
          dsimp only
          rw [hblank]
          rfl
      | false =>
          cases hparse : Request.parse s with
          | error e =>
              apply Or.inl
              refine ⟨(refuse "Malformed request" e.message).answer.toList, fun v => ?_⟩
              change (responses _, _) = _
              rw [answerLine, hdecode]
              dsimp only
              rw [hblank, answerText, hparse]
              rfl
          | ok q => exact .inr ⟨q, run_lineRun_request hdecode hblank hparse⟩

theorem repeats_line (hrooted : rooted -> t.IsRooted) (line : List UInt8) :
    exists ws, Repeats (List.Forall₂ (AnsweredAgain rooted)) (lineRun line) t ws := by
  rcases lineRun_cases line with ⟨rs, hrun⟩ | ⟨q, hrun⟩
  · exact ⟨[], Repeats.of_unchanged (forall₂_answeredAgain rooted rs) hrun⟩
  · obtain ⟨ws, hrequest⟩ := repeats_request hrooted q
    exact ⟨ws, hrequest.of_answer id (fun _ _ h => h) hrun⟩

section

variable {line : List UInt8} (rest : List (List UInt8)) (v : FileTree)

theorem run_linesRun_panics (h : isIdle line = false /\ PanicsAt line) :
    (linesRun (line :: rest)).run v = (lineRun line).run v := by
  change (responses _, _) = _
  rw [answerLines_cons, andThen_panicked ((panicked_served FileTree.disk line v).mpr h)]
  rfl

theorem run_linesRun (h : ¬ (isIdle line = false /\ PanicsAt line)) :
    (linesRun (line :: rest)).run v =
      (((lineRun line).run v).1 ++ ((linesRun rest).run ((lineRun line).run v).2).1,
        ((linesRun rest).run ((lineRun line).run v).2).2) := by
  have hgoes := Bool.eq_false_iff.mpr (mt (panicked_served FileTree.disk line v).mp h)
  change (responses _, _) = _
  rw [answerLines_cons, andThen_of_not_panicked hgoes]
  dsimp only
  rw [responses_append]
  rfl

end

/-- Each line is answered again as it was, in the tree that all of them have left. -/
theorem repeats_lines (hrooted : rooted -> t.IsRooted) (ls : List (List UInt8)) :
    exists ws, Repeats (List.Forall₂ (AnsweredAgain rooted)) (linesRun ls) t ws := by
  induction ls generalizing t with
  | nil => exact ⟨[], Repeats.of_unchanged .nil fun v => rfl⟩
  | cons line rest ih =>
      obtain ⟨ws, hline⟩ := repeats_line hrooted line
      by_cases hpanics : isIdle line = false /\ PanicsAt line
      · exact ⟨ws, hline.of_answer id (fun _ _ h => h) fun v => run_linesRun_panics rest v hpanics⟩
      · obtain ⟨more, hrest⟩ := ih fun h => hline.rooted (hrooted h)
        refine ⟨ws ++ more, hline.append hrest ?_ fun v => run_linesRun rest v hpanics⟩
        intro a a' b b' ha hb
        exact List.rel_append ha hb

end

/-!
## Streams
-/

/-- A response that does not tell of a file in the way of a path that goes up. -/
def StaysLevel (r : Response) : Prop :=
  forall path, Climbs path -> r.outcome ≠ .error (blockedBy path .exists)

theorem AnsweredAgain.eq_of_staysLevel {first second : Response}
    (h : AnsweredAgain rooted first second) (hrooted : rooted) (hplain : StaysLevel first) :
    second = first := by
  obtain ⟨hid, houtcome⟩ := h
  obtain ⟨id, outcome⟩ := first
  obtain ⟨id', outcome'⟩ := second
  dsimp only at hid houtcome
  cases houtcome with
  | same => rw [hid]
  | blocked path hclimbs => exact absurd rfl (hplain path (hclimbs hrooted))

theorem AnsweredAgain.isSuccess_eq {first second : Response}
    (h : AnsweredAgain rooted first second) : second.isSuccess = first.isSuccess := by
  obtain ⟨_, houtcome⟩ := h
  obtain ⟨id, outcome⟩ := first
  obtain ⟨id', outcome'⟩ := second
  dsimp only at houtcome
  cases houtcome with
  | same => rfl
  | blocked path hclimbs => rfl

theorem isSuccess_of_answeredAgain {rs rs' : List Response}
    (h : List.Forall₂ (AnsweredAgain rooted) rs rs') :
    rs'.map Response.isSuccess = rs.map Response.isSuccess := by
  induction h with
  | nil => rfl
  | cons hfirst _ ih => rw [List.map_cons, List.map_cons, hfirst.isSuccess_eq, ih]

theorem eq_of_answeredAgain {rs rs' : List Response}
    (h : List.Forall₂ (AnsweredAgain rooted) rs rs') (hrooted : rooted)
    (hplain : forall r, r ∈ rs -> StaysLevel r) : rs' = rs := by
  induction h with
  | nil => rfl
  | cons hfirst _ ih =>
      rw [hfirst.eq_of_staysLevel hrooted (hplain _ List.mem_cons_self),
        ih fun r hr => hplain r (List.mem_cons_of_mem _ hr)]

/-- A stream that is sent again to the disk it has left: the disk stays as it is, and each
line is answered as it was.  What failed fails again and what succeeded succeeds again, and
only a failure to make a directory behind a way up can be told in other words. -/
theorem serve_again [TypeScript.Recovery] (t : FileTree) (bytes : List UInt8) :
    let first := (serve FileTree.disk bytes).run t
    let second := (serve FileTree.disk bytes).run first.2
    second.2 = first.2 /\ second.1.panicked = first.1.panicked /\
      List.Forall₂ (AnsweredAgain t.IsRooted) (responses first.1.entries)
        (responses second.1.entries) /\
      (responses second.1.entries).map Response.isSuccess =
        (responses first.1.entries).map Response.isSuccess /\
      (t.IsRooted -> (forall r, r ∈ responses first.1.entries -> StaysLevel r) ->
        responses second.1.entries = responses first.1.entries) := by
  intro first second
  have hstands : t.IsRooted -> t.IsRooted := id
  obtain ⟨ws, hrepeats⟩ := repeats_lines hstands (lines bytes)
  obtain ⟨hlines, htree⟩ := hrepeats.run_again
  have hanswers : List.Forall₂ (AnsweredAgain t.IsRooted) (responses first.1.entries)
      (responses second.1.entries) := by
    rw [responses_serve, responses_serve]
    exact hlines
  have hpanicked : second.1.panicked = first.1.panicked := by
    rw [Bool.eq_iff_iff, panicked_serve, panicked_serve,
      (answerLines_answers FileTree.disk (lines bytes) first.2).panicked_iff,
      (answerLines_answers FileTree.disk (lines bytes) t).panicked_iff]
  exact ⟨htree, hpanicked, hanswers, isSuccess_of_answeredAgain hanswers,
    eq_of_answeredAgain hanswers⟩

theorem serve_linesRun [TypeScript.Recovery] (bytes : List UInt8) (v : FileTree) :
    (responses ((serve FileTree.disk bytes).run v).1.entries,
        ((serve FileTree.disk bytes).run v).2) =
      (linesRun (lines bytes)).run v := by
  rw [responses_serve]
  rfl

/-- A request whose output is behind a directory that is missing, up from it, and behind a
file. -/
def upwardText : List Char :=
  ["\x7b\"method\":\"generate\",\"params\":\x7b\"generator\":",
    "\x7b\"output\":\x7b\"value\":\"x/../f/g\"\x7d\x7d\x7d\x7d"].flatMap String.toList

def upwardPath : Path :=
  "x/../f/g".toList

def upwardRequest : Request :=
  { version := none, method := "generate".toList,
    params := .object [("generator".toList,
      .object [("output".toList, .object [("value".toList, .string upwardPath)])])],
    id := .null }

def fileAtTop : FileTree :=
  { entries := [(["f".toList], .file [])] }

def fileAndDirectoryAtTop : FileTree :=
  { entries := [(["f".toList], .file []), (["x".toList], .directory)] }

def upwardPayload : Payload :=
  { generator := { output := some { value := some upwardPath } } }

theorem decode_upwardRequest : Payload.decode upwardRequest.params = .ok upwardPayload :=
  rfl

theorem settings_upwardPayload : upwardPayload.settings {} = .ok { directory := upwardPath } :=
  rfl

theorem run_upwardRequest {v u : FileTree} {answer : Except WriteError WriteResult}
    (h : (FileTree.disk.writeOutput (upwardPath ++ "/index.ts".toList) []).run v = (answer, u)) :
    (requestRun upwardRequest).run v = ([⟨.null, writeOutcome answer⟩], u) := by
  have hgenerate : Settings.generate { directory := upwardPath } upwardPayload.datamodel =
      .ok ⟨upwardPath ++ "/index.ts".toList, [], 0, 0⟩ := by cbv
  have hrun : (requestRun upwardRequest).run v =
      (responsesOf .null (generated FileTree.disk upwardRequest.params v).1,
        (generated FileTree.disk upwardRequest.params v).2) := by
    rw [← run_generate FileTree.disk upwardRequest.params v]
    rfl
  rw [hrun, generated, decode_upwardRequest]
  dsimp only
  rw [settings_upwardPayload]
  dsimp only
  rw [hgenerate]
  dsimp only
  rw [h]
  cases answer <;> rfl

theorem parse_upwardText : Request.parse upwardText = .ok upwardRequest := by
  cbv

/-- The request leaves the tab width as it is. -/
theorem not_panicsAt_upwardText : ¬ PanicsAt (Text.encode upwardText) := by
  intro h
  rcases h with ⟨q, hq, _, p, s, hparams, hsettings, _, hwide, _⟩
  have hrequest : request? (Text.encode upwardText) = some upwardRequest := by
    rw [request?, Text.decode_encode]
    dsimp only
    rw [parse_upwardText]
    rfl
  cases hrequest.symm.trans hq
  cases decode_upwardRequest.symm.trans hparams
  cases settings_upwardPayload.symm.trans hsettings
  exact absurd hwide (by decide)

theorem linesRun_upwardText (v : FileTree) :
    (linesRun (lines (Text.encode upwardText))).run v = (requestRun upwardRequest).run v := by
  have hlines : lines (Text.encode upwardText) = [Text.encode upwardText] := by cbv
  rw [hlines, run_linesRun _ _ fun h => not_panicsAt_upwardText h.right,
    run_lineRun_request (Text.decode_encode upwardText) (by decide) parse_upwardText]
  exact Prod.ext (List.append_nil _) rfl

/-- The first run makes the directory, finds the file where a directory should be made and
says so.  The second run does not come as far, as the file is in its way. -/
theorem serve_again_differs :
    let first := (serve FileTree.disk (Text.encode upwardText)).run fileAtTop
    let second := (serve FileTree.disk (Text.encode upwardText)).run first.2
    responses first.1.entries = [⟨.null, .error (blockedBy upwardPath .exists)⟩] /\
      responses second.1.entries = [⟨.null, .error (blockedBy upwardPath .notDirectory)⟩] /\
      responses second.1.entries ≠ responses first.1.entries := by
  have hfirst : (linesRun (lines (Text.encode upwardText))).run fileAtTop =
      ([⟨.null, .error (blockedBy upwardPath .exists)⟩], fileAndDirectoryAtTop) := by
    have hwrite : (FileTree.disk.writeOutput (upwardPath ++ "/index.ts".toList) []).run fileAtTop =
        (.error (.createDirectory upwardPath .exists), fileAndDirectoryAtTop) := by rfl
    rw [linesRun_upwardText, run_upwardRequest hwrite]
    rfl
  have hsecond : (linesRun (lines (Text.encode upwardText))).run fileAndDirectoryAtTop =
      ([⟨.null, .error (blockedBy upwardPath .notDirectory)⟩], fileAndDirectoryAtTop) := by
    have hwrite : (FileTree.disk.writeOutput (upwardPath ++ "/index.ts".toList) []).run
        fileAndDirectoryAtTop =
          (.error (.createDirectory upwardPath .notDirectory), fileAndDirectoryAtTop) := by
      rfl
    rw [linesRun_upwardText, run_upwardRequest hwrite]
    rfl
  have hbegin := serve_linesRun (Text.encode upwardText) fileAtTop
  have hend := serve_linesRun (Text.encode upwardText) fileAndDirectoryAtTop
  rw [hfirst] at hbegin
  rw [hsecond] at hend
  obtain ⟨hanswer, htree⟩ := Prod.mk.inj hbegin
  obtain ⟨hagain, _⟩ := Prod.mk.inj hend
  dsimp only
  rw [htree, hanswer, hagain]
  refine ⟨rfl, rfl, ?_⟩
  intro hsame
  have hfailure := Except.error.inj (Response.mk.inj (List.cons.inj hsame).left).right
  exact absurd (message_of_blockedBy hfailure) (by decide)

end Host
end SchemaTypes
