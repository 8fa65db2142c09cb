import Mathlib.Data.List.Forall2
import SchemaTypes.Proofs.Disk.FileTree
import SchemaTypes.Proofs.Host.Outcome
import SchemaTypes.Proofs.Host.ResponseText
import SchemaTypes.Proofs.Settings.Indentation

/-!
# Serving a stream

A host gets one response for each line it sends that is not blank, in the same
order, up to a line at which the program panics.  What a line is answered depends on the
line and on the disk alone, so a stream can be served in parts, and a line that is no
request leaves the disk alone.
-/

namespace SchemaTypes
namespace Host

variable {σ : Type}

/-!
## What lines ask for
-/

def isIdle (line : List UInt8) : Bool :=
  match Text.decode line with
  | .ok s => Text.allBlank s
  | .error _ => false

def request? (line : List UInt8) : Option Request :=
  match Text.decode line with
  | .ok s => (Request.parse s).toOption
  | .error _ => none

/-- The program panics at params for a generation: they ask for an indentation that is longer
than any text, and for a line with an indentation. -/
def Panics (params : Json) : Prop :=
  exists p s, Payload.decode params = .ok p /\ p.settings {} = .ok s /\
    p.datamodel.clash? = none /\ FormatOptions.longestText < s.format.tabWidth /\
    TypeScript.IsIndented s.format.printWidth p.datamodel.declaration

/-- The program panics at a line: it asks for such a generation. -/
def PanicsAt (line : List UInt8) : Prop :=
  exists q, request? line = some q /\ q.method = "generate".toList /\ Panics q.params

structure Answers (line : List UInt8) (r : Response) : Prop where
  id : r.id = ((request? line).map Request.id).getD .null
  malformed : r.code? = some (-32700) <-> request? line = none
  unknown : forall q, request? line = some q ->
    (r.code? = some (-32601) <->
      q.method ≠ "getManifest".toList ∧ q.method ≠ "generate".toList)

/-- The responses to lines, one for each in their order, up to a line at which the program
panics, if there is one. -/
inductive AnswersUpTo : List (List UInt8) -> List Response -> Bool -> Prop
  | nil : AnswersUpTo [] [] false
  | answered {line : List UInt8} {r : Response} {rest : List (List UInt8)} {rs : List Response}
      {panicked : Bool} (hline : ¬ PanicsAt line) (hr : Answers line r)
      (hrest : AnswersUpTo rest rs panicked) : AnswersUpTo (line :: rest) (r :: rs) panicked
  | panicked {line : List UInt8} {rest : List (List UInt8)} (hline : PanicsAt line) :
      AnswersUpTo (line :: rest) [] true

theorem AnswersUpTo.panicked_iff {ls : List (List UInt8)} {rs : List Response} {panicked : Bool}
    (h : AnswersUpTo ls rs panicked) :
    panicked = true <-> exists line, line ∈ ls /\ PanicsAt line := by
  induction h with
  | nil => simp
  | answered hline _ _ ih => simp [ih, hline]
  | panicked hline => simp [hline]

theorem ofList_eq_iff {s : List Char} {t : String} : String.ofList s = t <-> s = t.toList := by
  constructor
  · intro h
    rw [← h, String.toList_ofList]
  · intro h
    rw [h, String.ofList_toList]

theorem isReadable_of_request? {line : List UInt8} {q : Request} (h : request? line = some q) :
    q.id.IsReadable (Reader.greatestDepth - 1) := by
  unfold request? at h
  split at h
  · exact Request.isReadable_of_parse (toOption_eq_some.mp h)
  · cases h

section

variable [TypeScript.Recovery]

theorem answer_generate (disk : Disk (StateM σ)) (params : Json) (s : σ) :
    ((generate disk params).run s).1.answer = (generated disk params s).1 :=
  congrArg Prod.fst (run_generate disk params s)

theorem code_generate (disk : Disk (StateM σ)) (params : Json) (s : σ) (f : Failure)
    (h : ((generate disk params).run s).1.answer = .error (.failure f)) : f.code = -32000 := by
  unfold generate at h
  cases hdecode : Payload.decode params with
  | error fault =>
      rw [hdecode] at h
      cases h
      rfl
  | ok p =>
      rw [hdecode] at h
      simp only [run_step] at h
      split at h
      · cases h
      · rename_i halt _
        cases halt with
        | failure e =>
            cases h
            rfl
        | panic => cases h

theorem panics_iff {params : Json} {p : Payload} {settings : Settings}
    (hparams : Payload.decode params = .ok p) (hsettings : p.settings {} = .ok settings) :
    Panics params <-> settings.generate p.datamodel = .error .panic := by
  rw [Settings.generate_eq_panic]
  constructor
  · rintro ⟨p', settings', hp, hs, hpanics⟩
    cases hparams.symm.trans hp
    cases hsettings.symm.trans hs
    exact hpanics
  · intro hpanics
    exact ⟨p, settings, hparams, hsettings, hpanics⟩

theorem panics_generate (disk : Disk (StateM σ)) (params : Json) (s : σ) :
    ((generate disk params).run s).1.answer = .error .panic <-> Panics params := by
  rw [answer_generate, generated]
  cases hdecode : Payload.decode params with
  | error fault =>
      refine iff_of_false nofun ?_
      rintro ⟨_, _, hp, _⟩
      cases hdecode.symm.trans hp
  | ok p =>
      dsimp only
      cases hsettings : p.settings {} with
      | error e =>
          refine iff_of_false nofun ?_
          rintro ⟨_, _, hp, hs, _⟩
          cases hdecode.symm.trans hp
          cases hsettings.symm.trans hs
      | ok settings =>
          rw [panics_iff hdecode hsettings]
          dsimp only
          cases settings.generate p.datamodel with
          | error halt => cases halt <;> simp [Halt.map]
          | ok g =>
              dsimp only
              cases (disk.writeOutput g.path g.content).run s with
              | mk answer u => cases answer <;> simp

theorem code_outcome (disk : Disk (StateM σ)) (q : Request) (s : σ) (f : Failure)
    (h : ((outcome disk q).run s).1.answer = .error (.failure f)) :
    f.code ≠ -32700 ∧
      (f.code = -32601 <->
        q.method ≠ "getManifest".toList ∧ q.method ≠ "generate".toList) := by
  unfold outcome at h
  split at h
  · cases h
  · rename_i hmethod
    have hcode := code_generate disk q.params s f h
    rw [hcode]
    simp [ofList_eq_iff.mp hmethod]
  · rename_i hmanifest hgenerate
    cases h
    refine ⟨by simp [Failure.unknownMethod], ?_⟩
    simp only [Failure.unknownMethod, true_iff]
    exact ⟨fun h => hmanifest (ofList_eq_iff.mpr h), fun h => hgenerate (ofList_eq_iff.mpr h)⟩

theorem panics_outcome (disk : Disk (StateM σ)) (q : Request) (s : σ) :
    ((outcome disk q).run s).1.answer = .error .panic <->
      q.method = "generate".toList /\ Panics q.params := by
  unfold outcome
  split
  · rename_i hmethod
    refine iff_of_false nofun ?_
    rintro ⟨hgenerate, _⟩
    rw [hgenerate] at hmethod
    exact absurd hmethod (by decide)
  · rename_i hmethod
    rw [panics_generate]
    simp [ofList_eq_iff.mp hmethod]
  · rename_i hgenerate
    refine iff_of_false nofun ?_
    rintro ⟨hmethod, _⟩
    exact hgenerate (ofList_eq_iff.mpr hmethod)

theorem answered_outcome (disk : Disk (StateM σ)) (q : Request) (s : σ) {result : Json}
    (h : ((outcome disk q).run s).1.answer = .ok result) :
    q.method ≠ "getManifest".toList -> q.method = "generate".toList := by
  intro hmanifest
  unfold outcome at h
  split at h
  · rename_i hmethod
    exact absurd (ofList_eq_iff.mp hmethod) hmanifest
  · rename_i hmethod
    exact ofList_eq_iff.mp hmethod
  · cases h

theorem answerLine_malformed (disk : Disk (StateM σ)) {line : List UInt8}
    (hidle : isIdle line = false) (hline : request? line = none) (s : σ) :
    exists told reason, (answerLine disk line).run s = (some told, s) ∧
      told.answer = some ⟨.null, .error (.malformed reason)⟩ := by
  unfold answerLine
  unfold isIdle at hidle
  unfold request? at hline
  cases hdecode : Text.decode line with
  | error e =>
      exact ⟨_, _, rfl, rfl⟩
  | ok text =>
      rw [hdecode] at hidle hline
      dsimp only at hidle hline
      cases hparse : Request.parse text with
      | ok q =>
          rw [hparse] at hline
          cases hline
      | error e =>
          refine ⟨refuse "Malformed request" e.message, _, ?_, rfl⟩
          simp only [hidle, answerText, hparse]
          rfl

theorem answerLine_request (disk : Disk (StateM σ)) {line : List UInt8} {q : Request}
    (hidle : isIdle line = false) (hline : request? line = some q) (s : σ) :
    exists told, (answerLine disk line).run s = (some told, ((outcome disk q).run s).2) ∧
      told.answer = Response.of? q.id ((outcome disk q).run s).1.answer := by
  unfold answerLine
  unfold isIdle at hidle
  unfold request? at hline
  cases hdecode : Text.decode line with
  | error e =>
      rw [hdecode] at hline
      cases hline
  | ok text =>
      rw [hdecode] at hidle hline
      dsimp only at hidle hline
      cases hparse : Request.parse text with
      | error e =>
          rw [hparse] at hline
          cases hline
      | ok found =>
          rw [hparse] at hline
          cases hline
          refine ⟨((answerRequest disk q).run s).1, ?_, rfl⟩
          simp only [hidle, answerText, hparse]
          rfl

theorem answerLine_idle (disk : Disk (StateM σ)) {line : List UInt8}
    (hidle : isIdle line = true) (s : σ) : (answerLine disk line).run s = (none, s) := by
  unfold answerLine
  unfold isIdle at hidle
  cases hdecode : Text.decode line with
  | error e =>
      rw [hdecode] at hidle
      cases hidle
  | ok text =>
      rw [hdecode] at hidle
      dsimp only at hidle
      simp only [hidle]
      rfl

theorem isReadable_generate (disk : Disk (StateM σ)) (params : Json) (s : σ) {id : Json}
    (hid : id.IsReadable (Reader.greatestDepth - 1)) {r : Response}
    (hr : Response.of? id ((generate disk params).run s).1.answer = some r) : r.IsReadable := by
  have hhalt : forall halt : Halt GenerateError,
      Response.of? id (.error (halt.map .ofGenerateError)) = some r -> r.IsReadable := by
    intro halt hr
    cases halt with
    | panic => cases hr
    | failure e =>
        cases hr
        exact Response.isReadable_error hid (Failure.isReadable_ofGenerateError e)
  unfold generate at hr
  cases hdecode : Payload.decode params with
  | error fault =>
      rw [hdecode] at hr
      cases hr
      exact Response.isReadable_error hid (Failure.isReadable_invalidParams fault)
  | ok p =>
      rw [hdecode] at hr
      simp only [run_step] at hr
      split at hr
      · cases hr
        exact Response.isReadable_ok hid (.null 3)
      · exact hhalt _ hr

theorem isReadable_outcome (disk : Disk (StateM σ)) (q : Request) (s : σ)
    (hid : q.id.IsReadable (Reader.greatestDepth - 1)) {r : Response}
    (hr : Response.of? q.id ((outcome disk q).run s).1.answer = some r) : r.IsReadable := by
  unfold outcome at hr
  split at hr
  · cases hr
    exact Response.isReadable_ok hid Response.isReadable_manifest
  · exact isReadable_generate disk q.params s hid hr
  · cases hr
    exact Response.isReadable_error hid (Failure.isReadable_unknownMethod q.method)

/-- A line that is not blank gets one response, which has to say what it should, unless the
program panics at it. -/
theorem answerLine_answers (disk : Disk (StateM σ)) {line : List UInt8}
    (hidle : isIdle line = false) (s : σ) :
    exists told, ((answerLine disk line).run s).1 = some told ∧
      ((told.answer = none ∧ PanicsAt line) ∨
        exists r, told.answer = some r ∧ ¬ PanicsAt line ∧ Answers line r) := by
  cases hline : request? line with
  | none =>
      obtain ⟨told, reason, hrun, hanswer⟩ := answerLine_malformed disk hidle hline s
      refine ⟨told, by rw [hrun], .inr ⟨_, hanswer, ?_, ?_⟩⟩
      · rintro ⟨q, hq, _⟩
        rw [hline] at hq
        cases hq
      constructor
      · rw [hline]
        rfl
      · simp [Response.code?, Failure.malformed, hline]
      · intro q hq
        rw [hline] at hq
        cases hq
  | some q =>
      obtain ⟨told, hrun, hanswer⟩ := answerLine_request disk hidle hline s
      have hpanics := panics_outcome disk q s
      have hat : PanicsAt line <-> q.method = "generate".toList ∧ Panics q.params := by
        simp [PanicsAt, hline]
      refine ⟨told, by rw [hrun], ?_⟩
      rw [hanswer, hat, ← hpanics]
      cases houtcome : ((outcome disk q).run s).1.answer with
      | ok result =>
          have hmethod := answered_outcome disk q s houtcome
          refine .inr ⟨_, rfl, nofun, ?_, ?_, ?_⟩
          · rw [hline]
            rfl
          · simp [Response.code?, hline]
          · intro q' hq'
            cases hline.symm.trans hq'
            simpa [Response.code?] using hmethod
      | error halt =>
          cases halt with
          | panic => exact .inl ⟨rfl, rfl⟩
          | failure f =>
              have hcode := code_outcome disk q s f houtcome
              refine .inr ⟨_, rfl, nofun, ?_, ?_, ?_⟩
              · rw [hline]
                rfl
              · simp [Response.code?, hline, hcode.left]
              · intro q' hq'
                cases hline.symm.trans hq'
                simpa [Response.code?] using hcode.right

end

/-!
## Many lines
-/

def responses (entries : List Entry) : List Response :=
  entries.filterMap Entry.response?

def sent (rs : List Response) : List UInt8 :=
  rs.flatMap Response.line

theorem responses_append (es fs : List Entry) :
    responses (es ++ fs) = responses es ++ responses fs :=
  List.filterMap_append

theorem responses_entries (told : Told (Option Response)) :
    responses (entries told) = told.answer.toList := by
  have hevents : responses (told.events.map .event) = [] := by
    simp [responses, Entry.response?]
  rw [entries, responses_append, hevents]
  cases told.answer <;> rfl

/-- What is sent first, and then what is sent on the disk that it leaves, if the program gets
there. -/
def andThen (first : Served × σ) (more : σ -> Served × σ) : Served × σ :=
  if first.1.panicked then first
  else (⟨first.1.entries ++ (more first.2).1.entries, (more first.2).1.panicked⟩, (more first.2).2)

theorem andThen_panicked {first : Served × σ} (h : first.1.panicked = true)
    (more : σ -> Served × σ) : andThen first more = first :=
  if_pos h

theorem andThen_of_not_panicked {first : Served × σ} (h : first.1.panicked = false)
    (more : σ -> Served × σ) :
    andThen first more =
      (⟨first.1.entries ++ (more first.2).1.entries, (more first.2).1.panicked⟩, (more first.2).2) :=
  if_neg (Bool.eq_false_iff.mp h)

section

variable [TypeScript.Recovery]

theorem answerLines_cons (disk : Disk (StateM σ)) (line : List UInt8)
    (rest : List (List UInt8)) (s : σ) :
    (answerLines disk (line :: rest)).run s =
      andThen (served ((answerLine disk line).run s).1, ((answerLine disk line).run s).2)
        (answerLines disk rest).run := by
  rw [answerLines, run_step, andThen]
  dsimp only
  cases (served ((answerLine disk line).run s).1).panicked with
  | true => rfl
  | false => rfl

theorem panicked_served (disk : Disk (StateM σ)) (line : List UInt8) (s : σ) :
    (served ((answerLine disk line).run s).1).panicked = true <->
      isIdle line = false ∧ PanicsAt line := by
  cases hidle : isIdle line with
  | true => simp [answerLine_idle disk hidle s, served]
  | false =>
      obtain ⟨told, hrun, ⟨hnone, hpanics⟩ | ⟨r, hsome, hpanics, _⟩⟩ :=
        answerLine_answers disk hidle s
      · simp [hrun, served, hnone, hpanics]
      · simp [hrun, served, hsome, hpanics]

theorem answerLines_answers (disk : Disk (StateM σ)) (ls : List (List UInt8)) (s : σ) :
    AnswersUpTo (ls.filter fun line => !isIdle line)
      (responses ((answerLines disk ls).run s).1.entries)
      ((answerLines disk ls).run s).1.panicked := by
  induction ls generalizing s with
  | nil =>
      exact .nil
  | cons line rest ih =>
      rw [answerLines_cons]
      cases hidle : isIdle line with
      | true =>
          rw [answerLine_idle disk hidle s, andThen_of_not_panicked rfl]
          simpa [hidle, served] using ih s
      | false =>
          obtain ⟨told, hrun, ⟨hnone, hpanics⟩ | ⟨r, hsome, hpanics, hanswers⟩⟩ :=
            answerLine_answers disk hidle s
          · have hpanicked : (served (some told)).panicked = true := by rw [served, hnone]; rfl
            rw [hrun, andThen_panicked hpanicked, hpanicked, served, responses_entries, hnone]
            simpa [hidle] using .panicked hpanics
          · have hpanicked : (served (some told)).panicked = false := by rw [served, hsome]; rfl
            rw [hrun, andThen_of_not_panicked hpanicked]
            simpa [hidle, served, hsome, responses_append, responses_entries]
              using .answered hpanics hanswers (ih _)

theorem isReadable_answerLine (disk : Disk (StateM σ)) (line : List UInt8) (s : σ) {r : Response}
    (hr : r ∈ responses (served ((answerLine disk line).run s).1).entries) : r.IsReadable := by
  cases hidle : isIdle line with
  | true =>
      rw [answerLine_idle disk hidle s] at hr
      cases hr
  | false =>
      cases hline : request? line with
      | none =>
          obtain ⟨told, reason, hrun, hanswer⟩ := answerLine_malformed disk hidle hline s
          rw [hrun, served, responses_entries, hanswer] at hr
          cases List.mem_singleton.mp hr
          exact Response.isReadable_error (.null _) (Failure.isReadable_malformed reason)
      | some q =>
          obtain ⟨told, hrun, hanswer⟩ := answerLine_request disk hidle hline s
          rw [hrun, served, responses_entries, hanswer, Option.mem_toList] at hr
          exact isReadable_outcome disk q s (isReadable_of_request? hline) hr

/-- Every response that is sent can be read. -/
theorem isReadable_answerLines (disk : Disk (StateM σ)) (ls : List (List UInt8)) (s : σ)
    {r : Response} (hr : r ∈ responses ((answerLines disk ls).run s).1.entries) : r.IsReadable := by
  induction ls generalizing s with
  | nil => cases hr
  | cons line rest ih =>
      rw [answerLines_cons, andThen] at hr
      split at hr
      · exact isReadable_answerLine disk line s hr
      · rw [responses_append] at hr
        cases List.mem_append.mp hr with
        | inl hline => exact isReadable_answerLine disk line s hline
        | inr hrest => exact ih _ hrest

theorem entries_serve (disk : Disk (StateM σ)) (bytes : List UInt8) (s : σ) :
    ((serve disk bytes).run s).1.entries =
      .event opening :: ((answerLines disk (lines bytes)).run s).1.entries ++
        if ((answerLines disk (lines bytes)).run s).1.panicked then [] else [.event closing] :=
  rfl

theorem responses_serve (disk : Disk (StateM σ)) (bytes : List UInt8) (s : σ) :
    responses ((serve disk bytes).run s).1.entries =
      responses ((answerLines disk (lines bytes)).run s).1.entries := by
  rw [entries_serve, List.cons_append, ← List.singleton_append, responses_append, responses_append]
  split
  · exact List.append_nil _
  · exact List.append_nil _

theorem panicked_serve (disk : Disk (StateM σ)) (bytes : List UInt8) (s : σ) :
    ((serve disk bytes).run s).1.panicked = ((answerLines disk (lines bytes)).run s).1.panicked :=
  rfl

theorem disk_serve (disk : Disk (StateM σ)) (bytes : List UInt8) (s : σ) :
    ((serve disk bytes).run s).2 = ((answerLines disk (lines bytes)).run s).2 :=
  rfl

end

end Host
end SchemaTypes
