import SchemaTypes.Proofs.Host.Service
import SchemaTypes.Proofs.Json.Nesting
import SchemaTypes.Proofs.Json.Stored
import SchemaTypes.Proofs.Payload

/-!
# Lines with one request

Params that stand in a text are sent to a host on a line around that text.  They are one
level deeper there, so that the line is a request unless it is nested too deep.  What the
host is sent back is the answer to that line alone.
-/

namespace SchemaTypes
namespace Reader

theorem members_key {α : Type} {step : α -> List Char -> Reader α} {steps : Nat} {first : Bool}
    {state : α} {s key rest : List Char}
    (hnext : nextKey first s = .ok (.more (key ++ '"' :: rest))) (hkey : key.all isPlain = true)
    (hsteps : key.length ≤ steps) :
    members step (steps + 1) first state s =
      step state key rest >>= fun x => members step steps false x.1 x.2 := by
  rw [members, hnext]
  change (text (steps + 1) (key ++ '"' :: rest) >>= _) = _
  rw [text_plain (Nat.lt_succ_of_le hsteps) hkey]
  rfl

end Reader

/-!
## Lines around params
-/

namespace Host

open Reader

/-- The line of a request for a generation with the params of the given text. -/
def requestText (params : List Char) : List Char :=
  Response.objectText
    [Response.memberText "method" (Json.ofText "generate").compact,
      Response.memberText "params" params] ++ ['\n']

def requestFor (params : Json) : Request :=
  { version := none, method := "generate".toList, params, id := .null }

theorem requestText_eq (params : List Char) :
    requestText params = '\x7b' :: '"' :: ("method".toList ++ '"' :: ':' :: '"' ::
      ("generate".toList ++ '"' :: ',' :: '"' :: ("params".toList ++ '"' :: ':' ::
        (params ++ '\x7d' :: ['\n'])))) := by
  have hobject : Response.objectText
      [Response.memberText "method" (Json.ofText "generate").compact,
        Response.memberText "params" params] =
      '\x7b' :: '"' :: ("method".toList ++ '"' :: ':' :: '"' ::
        ("generate".toList ++ '"' :: ',' :: '"' :: ("params".toList ++ '"' :: ':' ::
          (params ++ ['\x7d'])))) := by
    rfl
  rw [requestText, hobject]
  simp

theorem readMember_method {steps : Nat} (hsteps : 8 < steps) (p : Request.Parts)
    (hmethod : p.method = none) (rest : List Char) :
    Request.readMember steps p "method".toList (':' :: '"' :: ("generate".toList ++ '"' :: rest)) =
      .ok ({ p with method := some "generate".toList }, rest) := by
  have hread : Request.readField "method" p.method (Request.textValue steps)
      (':' :: '"' :: ("generate".toList ++ '"' :: rest)) = .ok ("generate".toList, rest) := by
    rw [hmethod]
    exact text_plain hsteps rfl rest
  change Request.readField "method" p.method (Request.textValue steps) (':' :: '"' :: _) >>= _ = _
  rw [hread]
  rfl

theorem readMember_params {steps : Nat} (p : Request.Parts)
    (hparams : p.params = none) (rest : List Char) :
    Request.readMember steps p "params".toList (':' :: rest) =
      Request.partValue steps rest >>= fun x => .ok ({ p with params := some x.1 }, x.2) := by
  change Request.readField "params" p.params (Request.partValue steps) (':' :: rest) >>= _ = _
  rw [hparams]
  rfl

/-- The request that has been read when its object has ended. -/
def requestOf (x : Request.Parts × List Char) : Except Fault (Request × List Char) :=
  match x.1.method with
  | none => Request.failShape (.missingField "method") x.2
  | some method =>
      .ok (⟨x.1.version.getD none, method, x.1.params.getD .null, x.1.id.getD .null⟩, x.2)

theorem reader_requestText (steps : Nat) (params : List Char) :
    Request.reader (steps + 11) (requestText params) =
      Request.partValue (steps + 11) (params ++ '\x7d' :: ['\n']) >>= fun x =>
        members (Request.readMember (steps + 11)) (steps + 9) false
          { method := some "generate".toList, params := some x.1 } x.2 >>= requestOf := by
  have hmethod : forall rest, members (Request.readMember (steps + 11)) (steps + 11) true {}
      ('"' :: ("method".toList ++ '"' :: ':' :: '"' :: ("generate".toList ++ '"' :: rest))) =
        members (Request.readMember (steps + 11)) (steps + 10) false
          { method := some "generate".toList } rest := by
    intro rest
    rw [members_key (nextKey_eq_ok.mpr (.first rfl)) rfl (by simp),
      readMember_method (by omega) _ rfl]
    rfl
  rw [requestText_eq]
  change Request.ofObject (steps + 11) _ = _
  rw [Request.ofObject, hmethod, members_key (nextKey_eq_ok.mpr (.further rfl rfl)) rfl (by simp),
    readMember_params _ rfl]
  cases Request.partValue (steps + 11) (params ++ '\x7d' :: ['\n']) with
  | error fault => rfl
  | ok x => rfl

theorem reader_requestText_of_ok {steps : Nat} {params rest : List Char} {j : Json}
    (hparams : Request.partValue (steps + 11) (params ++ '\x7d' :: ['\n']) = .ok (j, rest))
    (hrest : skipBlanks rest = '\x7d' :: ['\n']) :
    Request.reader (steps + 11) (requestText params) = .ok (requestFor j, ['\n']) := by
  have hend : forall p, members (Request.readMember (steps + 11)) (steps + 9) false p rest =
      .ok (p, ['\n']) := by
    intro p
    rw [members, nextKey_eq_ok.mpr (.close hrest)]
    rfl
  rw [reader_requestText, hparams]
  change members _ _ _ _ rest >>= requestOf = _
  rw [hend]
  rfl

theorem length_requestText (params : List Char) :
    exists steps, (requestText params).length + 1 = steps + 11 /\ params.length + 1 ≤ steps + 11 := by
  exists (requestText params).length - 10
  rw [requestText_eq]
  simp

theorem parse_requestText_of_isWithin {params : List Char} {j : Json}
    (hparse : Json.parse params = .ok j) (hwithin : Json.IsWithin (greatestDepth - 1) params) :
    Request.parse (requestText params) = .ok (requestFor j) := by
  rcases hwithin with ⟨j', hwithin⟩
  cases Json.parseWithin_unique (Nat.sub_le _ _) hwithin hparse
  rcases run_eq_ok.mp hwithin with ⟨rest, hvalue, hrest⟩
  rcases length_requestText params with ⟨steps, hlength, hsteps⟩
  have hread : Request.partValue (steps + 11) (params ++ '\x7d' :: ['\n']) = _ :=
    value_brace hsteps (Nat.le_refl _) ['\n'] _ _ _ hvalue
  apply run_eq_ok.mpr
  rw [hlength]
  exact ⟨_, reader_requestText_of_ok hread (skipBlanks_brace hrest _), rfl⟩

theorem parse_requestText {params : List Char} {j : Json} (hparse : Json.parse params = .ok j) :
    Request.parse (requestText params) = .ok (requestFor j) \/
      exists e, e.problem = .tooDeep /\ Request.parse (requestText params) = .error e := by
  rcases run_eq_ok.mp hparse with ⟨rest, hvalue, hrest⟩
  rcases length_requestText params with ⟨steps, hlength, hsteps⟩
  have hbrace := value_brace hsteps (Nat.le_refl _) ['\n'] _ _ _ hvalue
  have hcovers := value_covers (steps + 11) greatestDepth (greatestDepth - 1) _ _ hbrace
  cases hread : value (steps + 11) (greatestDepth - 1) (params ++ '\x7d' :: ['\n']) with
  | ok x =>
      rw [hread] at hcovers
      cases hcovers
      apply Or.inl
      apply run_eq_ok.mpr
      rw [hlength]
      exact ⟨_, reader_requestText_of_ok hread (skipBlanks_brace hrest _), rfl⟩
  | error fault =>
      rw [hread] at hcovers
      cases hcovers with
      | tooDeep hdeep =>
          apply Or.inr
          exists fault.locate (requestText params)
          have hfault : Request.partValue (steps + 11) (params ++ '\x7d' :: ['\n']) = .error fault :=
            hread
          constructor
          · exact hdeep
          · rw [Request.parse, run, hlength, only, reader_requestText, hfault]
            rfl

/-!
## What is served for a line
-/

theorem allBlank_of_parse {s : List Char} {q : Request} (h : Request.parse s = .ok q) :
    Text.allBlank s = false := by
  rcases run_eq_ok.mp h with ⟨rest, hread, _⟩
  have hbracket : exists c left, skipBlanks s = c :: left /\ Text.isBlank c = false := by
    unfold Request.reader at hread
    split at hread
    · cases hread
    · rename_i hs
      exact ⟨_, _, hs, rfl⟩
    · rename_i hs
      exact ⟨_, _, hs, rfl⟩
    · exact absurd hread (Request.failKind_ne_ok _ _ _ _)
  rcases hbracket with ⟨c, left, hs, hc⟩
  have hmem : c ∈ s := by
    apply (List.dropWhile_sublist isBlank).subset
    rw [← skipBlanks, hs]
    exact List.mem_cons_self
  rw [Text.allBlank, List.all_eq_false]
  exact ⟨c, hmem, by simp [hc]⟩

theorem isIdle_of_request {line : List UInt8} {q : Request} (h : request? line = some q) :
    isIdle line = false := by
  unfold request? at h
  unfold isIdle
  cases hdecode : Text.decode line with
  | error e => rfl
  | ok s =>
      rw [hdecode] at h
      exact allBlank_of_parse (toOption_eq_some.mp h)

theorem request_of_parse {s : List Char} {q : Request} (h : Request.parse s = .ok q) :
    request? (Text.encode s) = some q := by
  rw [request?, Text.decode_encode]
  dsimp only
  rw [h]
  rfl

section

variable {σ : Type} [TypeScript.Recovery]

theorem serve_line (disk : Disk (StateM σ)) {line : List UInt8} (hlines : lines line = [line])
    {told : Told (Option Response)} {s u : σ}
    (hanswer : (answerLine disk line).run s = (some told, u)) :
    responses ((serve disk line).run s).1.entries = told.answer.toList /\
      ((serve disk line).run s).1.panicked = told.answer.isNone /\
      ((serve disk line).run s).2 = u := by
  rw [responses_serve, panicked_serve, disk_serve, hlines, answerLines_cons, hanswer]
  cases hresponse : told.answer with
  | none =>
      have hpanicked : (served (some told)).panicked = true := by
        rw [served, hresponse]
        rfl
      rw [andThen_panicked hpanicked, hpanicked, served, responses_entries, hresponse]
      exact ⟨rfl, rfl, rfl⟩
  | some r =>
      have hgoes : (served (some told)).panicked = false := by
        rw [served, hresponse]
        rfl
      rw [andThen_of_not_panicked hgoes, responses_append, served, responses_entries, hresponse]
      exact ⟨rfl, rfl, rfl⟩

theorem serve_generate (disk : Disk (StateM σ)) {line : List UInt8} {q : Request}
    (hlines : lines line = [line]) (hline : request? line = some q)
    (hmethod : q.method = "generate".toList) (s : σ) :
    let response? := Response.of? q.id ((generate disk q.params).run s).1.answer
    responses ((serve disk line).run s).1.entries = response?.toList /\
      ((serve disk line).run s).1.panicked = response?.isNone /\
      ((serve disk line).run s).2 = ((generate disk q.params).run s).2 := by
  have houtcome : outcome disk q = generate disk q.params := by
    rw [outcome, hmethod]
    rfl
  rcases answerLine_request disk (isIdle_of_request hline) hline s with ⟨told, hrun, hanswer⟩
  rw [houtcome] at hrun hanswer
  rw [← hanswer]
  exact serve_line disk hlines hrun

theorem serve_refused (disk : Disk (StateM σ)) {text : List Char}
    (hlines : lines (Text.encode text) = [Text.encode text]) (hblank : Text.allBlank text = false)
    {e : SyntaxError} (herror : Request.parse text = .error e) (s : σ) :
    responses ((serve disk (Text.encode text)).run s).1.entries =
        [⟨.null, .error (.malformed e.message)⟩] /\
      ((serve disk (Text.encode text)).run s).2 = s := by
  have hanswer : (answerLine disk (Text.encode text)).run s =
      (some (refuse "Malformed request" e.message), s) := by
    rw [answerLine, Text.decode_encode]
    dsimp only
    rw [hblank, answerText, herror]
    rfl
  rcases serve_line disk hlines hanswer with ⟨hresponses, _, htree⟩
  exact ⟨hresponses, htree⟩

end

end Host
end SchemaTypes
