import SchemaTypes.Cli.Run
import SchemaTypes.Proofs.Generation
import SchemaTypes.Proofs.Host.Service

/-!
# Objects on the error stream

The stream to the host carries the lines of events between those of responses.  An
event starts with the name of its level, so that its first line is never read as an
object.  It has further lines only where a text that it tells holds a line feed, which
is not escaped: such a line can be read as an object that no response has sent.
-/

namespace SchemaTypes

/-!
## Texts of objects
-/

namespace Reader

theorem opens_of_valueWith {steps : Nat} {nested? : Option (Reader Json)} {s rest : List Char}
    {o : Members} (h : valueWith steps nested? s = .ok (.object o, rest)) :
    (skipBlanks s).head? = some '\x7b' := by
  unfold valueWith at h
  split at h
  · cases h
  · obtain ⟨_, _, hvalue⟩ := bind_eq_ok.mp h
    cases hvalue
  · obtain ⟨_, _, hvalue⟩ := bind_eq_ok.mp h
    cases hvalue
  · obtain ⟨_, _, hvalue⟩ := bind_eq_ok.mp h
    cases hvalue
  · obtain ⟨_, _, hvalue⟩ := bind_eq_ok.mp h
    cases hvalue
  · obtain ⟨_, _, hvalue⟩ := bind_eq_ok.mp h
    cases hvalue
  · split at h
    · cases h
    · obtain ⟨_, _, hvalue⟩ := bind_eq_ok.mp h
      cases hvalue
  · rename_i hbrace
    rw [hbrace]
    rfl
  · split at h
    · obtain ⟨_, _, hvalue⟩ := bind_eq_ok.mp h
      cases hvalue
    · cases h

end Reader

def Json.isObjectText (s : List Char) : Bool :=
  match Json.parse s with
  | .ok (.object _) => true
  | _ => false

theorem Json.opens_of_isObjectText {s : List Char} (h : isObjectText s = true) :
    (Reader.skipBlanks s).head? = some '\x7b' := by
  unfold isObjectText parse Reader.run at h
  cases honly : Reader.only (Reader.value (s.length + 1) Reader.greatestDepth) s with
  | error fault =>
      rw [honly] at h
      cases h
  | ok j =>
      rw [honly] at h
      cases j with
      | object o =>
          obtain ⟨⟨j, rest⟩, hvalue, hend⟩ := bind_eq_ok.mp honly
          have hj : j = .object o := by
            dsimp only at hend
            split at hend
            · cases hend
              rfl
            · cases hend
          rw [hj] at hvalue
          exact Reader.opens_of_valueWith hvalue
      | _ => cases h

/-!
## First bytes
-/

namespace Text

/-- A text that starts with a byte of ASCII is decoded to one that starts with its
character. -/
theorem decode_cons {a : UInt8} {bytes : List UInt8} {s : List Char} (ha : a.toNat < 0x80)
    (h : decode (a :: bytes) = .ok s) : exists rest, s = Char.ofNat a.toNat :: rest := by
  rw [decode, pieces_one bytes ha, charsFrom] at h
  split at h
  · cases h
    exact ⟨_, rfl⟩
  · cases h

end Text

namespace Host

def isObject (line : List UInt8) : Bool :=
  match Text.decode line with
  | .ok s => Json.isObjectText s
  | .error _ => false

theorem isCapital_facts : forall n, n < 91 -> 65 ≤ n ->
    Reader.isBlank (Char.ofNat n) = false /\ Char.ofNat n ≠ '\x7b' := by
  decide

theorem not_isObject_of_capital {a : UInt8} (hlow : 65 ≤ a.toNat) (hhigh : a.toNat < 91)
    (line : List UInt8) : isObject (a :: line) = false := by
  apply Bool.eq_false_iff.mpr
  intro hobject
  unfold isObject at hobject
  cases hdecode : Text.decode (a :: line) with
  | error e =>
      rw [hdecode] at hobject
      cases hobject
  | ok s =>
      rw [hdecode] at hobject
      obtain ⟨rest, hs⟩ := Text.decode_cons (by omega) hdecode
      have hopens := Json.opens_of_isObjectText hobject
      obtain ⟨hblank, hbrace⟩ := isCapital_facts a.toNat hhigh hlow
      rw [hs, Reader.skipBlanks, List.dropWhile_cons_of_neg (by simp [hblank]),
        List.head?_cons, Option.some.injEq] at hopens
      exact hbrace hopens

/-!
## Lines of entries
-/

def printed (filter : LogFilter) (notices : List Notice) : List UInt8 :=
  (notices.filterMap fun n => n.text? filter).flatMap fun s => Text.encode s ++ [10]

def objectLines (s : List Char) : List (List UInt8) :=
  (lines (Text.encode s ++ [10])).filter isObject

theorem printed_cons (filter : LogFilter) (n : Notice) (rest : List Notice) :
    printed filter (n :: rest) =
      ((n.text? filter).elim [] fun s => Text.encode s ++ [10]) ++ printed filter rest := by
  unfold printed
  cases htext : n.text? filter with
  | none => simp [htext]
  | some s => simp [htext]

theorem objects_printed (filter : LogFilter) (notices : List Notice) :
    (lines (printed filter notices)).filter isObject =
      notices.flatMap fun n => (n.text? filter).elim [] objectLines := by
  induction notices with
  | nil => rfl
  | cons n rest ih =>
      rw [printed_cons, List.flatMap_cons, ← ih]
      cases n.text? filter with
      | none => rfl
      | some s =>
          rw [Option.elim_some, Option.elim_some, List.append_assoc, List.singleton_append,
            lines_append_feed, List.filter_append]
          rfl

theorem objectLines_response (r : Response) : objectLines r.text = [r.line].filter isObject := by
  rw [objectLines, lines_line r.feed_not_mem_encode_text]
  rfl

/-- The first byte of an event is that of a capital letter. -/
theorem exists_encode_event (e : Event) : exists a rest, Text.encode e.text = a :: rest /\
    65 ≤ a.toNat /\ a.toNat < 91 := by
  unfold Event.text
  cases e.level <;> exact ⟨_, _, rfl, by decide, by decide⟩

theorem objectLines_event (e : Event) :
    objectLines e.text = (lines (Text.encode e.text ++ [10])).tail.filter isObject := by
  obtain ⟨a, rest, hencode, hlow, hhigh⟩ := exists_encode_event e
  have hfeed : a ≠ 10 := by
    rintro rfl
    revert hlow
    decide
  rw [objectLines, hencode, List.cons_append, lines, if_neg hfeed]
  cases lines (rest ++ [10]) with
  | nil =>
      rw [List.filter_cons_of_neg (by simp [not_isObject_of_capital hlow hhigh])]
      rfl
  | cons line more =>
      dsimp only
      rw [List.filter_cons_of_neg (by simp [not_isObject_of_capital hlow hhigh])]
      rfl

def entryObjects (filter : LogFilter) : Entry -> List (List UInt8)
  | .event e =>
      if filter.tells e then (lines (Text.encode e.text ++ [10])).tail.filter isObject else []
  | .response r => [r.line].filter isObject

theorem objects_text (filter : LogFilter) (e : Entry) :
    (e.text? filter).elim [] objectLines = entryObjects filter e := by
  cases e with
  | response r => exact objectLines_response r
  | event e =>
      rw [Entry.text?, entryObjects]
      split
      · exact objectLines_event e
      · rfl

theorem flatMap_entryObjects {filter : LogFilter} {entries : List Entry}
    (h : forall e, .event e ∈ entries -> filter.tells e = true -> '\n' ∉ e.text) :
    entries.flatMap (entryObjects filter) =
      ((responses entries).map Response.line).filter isObject := by
  induction entries with
  | nil => rfl
  | cons entry rest ih =>
      have hrest := ih fun e he => h e (List.mem_cons_of_mem _ he)
      rw [List.flatMap_cons, hrest]
      cases entry with
      | response r =>
          rw [entryObjects, ← List.filter_append]
          rfl
      | event e =>
          rw [entryObjects]
          split
          · rename_i htold
            rw [lines_line (mt Text.feed_mem_encode.mp (h e List.mem_cons_self htold))]
            rfl
          · rfl

/-!
## What is served
-/

section

open Event

variable {e : Event}

theorem hasPlainFrame_tell {level : Level} {message : String} {values : List (String × List Char)}
    (hmessage : '\n' ∉ message.toList) (hvalues : forall v, v ∈ values -> IsTold v) :
    (tell level message values).HasPlainFrame :=
  hasPlainFrame_mk (by decide) hmessage hvalues

theorem hasPlainFrame_failureEvents {q : Request} {answer : Except (Halt Failure) Json}
    (h : e ∈ failureEvents q answer) : e.HasPlainFrame := by
  unfold failureEvents at h
  split at h
  · cases List.mem_singleton.mp h
    refine hasPlainFrame_tell (by decide) ?_
    simp only [List.forall_mem_cons]
    exact ⟨isTold_sent _ (by decide) (by decide),
      isTold_plain (by decide) (Json.newline_not_mem_compact _),
      isTold_plain (by decide) (newline_not_mem_toString_int _),
      isTold_sent _ (by decide) (by decide), by simp⟩
  · cases h

theorem hasPlainFrame_refuse {message reason : String} (hmessage : '\n' ∉ message.toList)
    (h : e ∈ (refuse message reason).events) : e.HasPlainFrame := by
  cases List.mem_singleton.mp h
  refine hasPlainFrame_tell hmessage ?_
  simp only [List.forall_mem_cons]
  exact ⟨isTold_sent _ (by decide) (by decide), by simp⟩

variable [TypeScript.Recovery] (disk : Disk (StateM σ)) (t : σ)

theorem hasPlainFrame_generate (params : Json)
    (h : e ∈ ((generate disk params).run t).1.events) : e.HasPlainFrame := by
  unfold generate at h
  cases hparams : Payload.decode params with
  | error fault =>
      rw [hparams] at h
      cases h
  | ok p =>
      rw [hparams] at h
      dsimp only at h
      rw [run_step] at h
      have hevents : e ∈ ((p.generate disk).run t).1.events := by
        split at h
        · exact h
        · exact h
      exact p.hasPlainFrame_generate disk t hevents

theorem hasPlainFrame_outcome (q : Request) (h : e ∈ ((outcome disk q).run t).1.events) :
    e.HasPlainFrame := by
  unfold outcome at h
  split at h
  · cases h
  · exact hasPlainFrame_generate disk t q.params h
  · cases h

theorem hasPlainFrame_answerRequest (q : Request)
    (h : e ∈ ((answerRequest disk q).run t).1.events) : e.HasPlainFrame := by
  unfold answerRequest at h
  rw [run_step] at h
  cases List.mem_append.mp h with
  | inr hfailure => exact hasPlainFrame_failureEvents hfailure
  | inl htold =>
      cases List.mem_cons.mp htold with
      | inr houtcome => exact hasPlainFrame_outcome disk t q houtcome
      | inl hstart =>
          rw [hstart]
          refine hasPlainFrame_tell (by decide) ?_
          simp only [List.forall_mem_cons]
          exact ⟨isTold_sent _ (by decide) (by decide),
            isTold_plain (by decide) (Json.newline_not_mem_compact _), by simp⟩

theorem hasPlainFrame_answerLine {line : List UInt8}
    {told : Told (Option Response)}
    (hanswer : ((answerLine disk line).run t).1 = some told) (h : e ∈ told.events) :
    e.HasPlainFrame := by
  unfold answerLine at hanswer
  cases hdecode : Text.decode line with
  | error fault =>
      rw [hdecode] at hanswer
      cases hanswer
      exact hasPlainFrame_refuse (by decide) h
  | ok s =>
      rw [hdecode] at hanswer
      dsimp only at hanswer
      split at hanswer
      · cases hanswer
      · rw [run_step] at hanswer
        cases hanswer
        unfold answerText at h
        cases hparse : Request.parse s with
        | error fault =>
            rw [hparse] at h
            exact hasPlainFrame_refuse (by decide) h
        | ok q =>
            rw [hparse] at h
            exact hasPlainFrame_answerRequest disk t q h

theorem hasPlainFrame_served {line : List UInt8}
    (h : .event e ∈ (served ((answerLine disk line).run t).1).entries) : e.HasPlainFrame := by
  cases hanswer : ((answerLine disk line).run t).1 with
  | none =>
      rw [hanswer] at h
      cases h
  | some told =>
      rw [hanswer, served, entries, List.mem_append] at h
      cases h with
      | inr hresponse =>
          obtain ⟨_, _, heq⟩ := List.mem_map.mp hresponse
          cases heq
      | inl htold =>
          obtain ⟨e', he', heq⟩ := List.mem_map.mp htold
          cases heq
          exact hasPlainFrame_answerLine disk t hanswer he'

theorem hasPlainFrame_answerLines (ls : List (List UInt8))
    (h : .event e ∈ ((answerLines disk ls).run t).1.entries) : e.HasPlainFrame := by
  induction ls generalizing t with
  | nil => cases h
  | cons line rest ih =>
      rw [answerLines_cons, andThen] at h
      split at h
      · exact hasPlainFrame_served disk t h
      · cases List.mem_append.mp h with
        | inl hline => exact hasPlainFrame_served disk t hline
        | inr hrest => exact ih _ hrest

theorem hasPlainFrame_serve (bytes : List UInt8)
    (h : .event e ∈ ((serve disk bytes).run t).1.entries) : e.HasPlainFrame := by
  rw [entries_serve, List.mem_append, List.mem_cons] at h
  obtain (hopening | hanswers) | hending := h
  · cases hopening
    exact hasPlainFrame_tell (by decide) (by simp)
  · exact hasPlainFrame_answerLines disk t _ hanswers
  · split at hending
    · cases hending
    · cases List.mem_singleton.mp hending
      exact hasPlainFrame_tell (by decide) (by simp)

end

/-- The notices of a host add no objects to those of what it is sent: the words of a panic are
none. -/
theorem objects_ofServed (filter : LogFilter) (s : Served) :
    (lines (printed filter (Run.ofServed s).notices)).filter isObject =
      s.entries.flatMap (entryObjects filter) := by
  have hentries : (s.entries.map Notice.entry).flatMap
      (fun n => (n.text? filter).elim [] objectLines) = s.entries.flatMap (entryObjects filter) := by
    rw [List.flatMap_map]
    exact congrArg (s.entries.flatMap ·) (funext (objects_text filter))
  rw [objects_printed, Run.ofServed]
  split
  · have hpanic : objectLines Notice.panicText = [] := by decide +kernel
    rw [List.flatMap_append, hentries, List.flatMap_singleton, Notice.text?, Option.elim_some, hpanic,
      List.append_nil]
  · exact hentries

theorem isObject_line {r : Response} (h : r.IsReadable) : isObject r.line = true := by
  have hline : r.line = Text.encode (r.text ++ ['\n']) := by
    rw [Response.line, Text.encode, Text.encode, List.flatMap_append]
    rfl
  rw [isObject, hline, Text.decode_encode]
  dsimp only
  rw [Json.isObjectText, h.parse_line]
  rfl

/-- The objects on the error stream: those on the lines of responses, in their order, and
those on further lines of events.  An event has further lines only where a value that is
told as it was sent holds a line feed, and otherwise the objects on the stream are the
responses. -/
theorem objects_on_error_stream [TypeScript.Recovery] (filter : LogFilter) (disk : Disk (StateM σ))
    (bytes : List UInt8) (t : σ) :
    let entries := ((serve disk bytes).run t).1.entries
    let notices := (((Command.host).run disk bytes).run t).1.notices
    let objects := (lines (printed filter notices)).filter isObject
    objects = entries.flatMap (entryObjects filter) /\
    ((forall e v, .event e ∈ entries -> filter.tells e = true -> v ∈ e.values ->
        v.1 ∈ Event.sentValues -> '\n' ∉ v.2) ->
      objects = (responses entries).map Response.line) /\
    (forall r, r ∈ responses entries -> isObject r.line = true /\ exists o : Members,
      r.line = Text.encode (Json.object o).compact ++ [10]) := by
  intro entries notices objects
  have hobjects : objects = entries.flatMap (entryObjects filter) :=
    objects_ofServed filter ((serve disk bytes).run t).1
  have hresponses : forall r, r ∈ responses entries -> isObject r.line = true := by
    intro r hr
    have hserved : responses entries = responses ((answerLines disk (lines bytes)).run t).1.entries :=
      responses_serve disk bytes t
    rw [hserved] at hr
    exact isObject_line (isReadable_answerLines disk (lines bytes) t hr)
  refine ⟨hobjects, fun hsent => ?_, fun r hr => ⟨hresponses r hr, ?_⟩⟩
  · have hplain : forall e, .event e ∈ entries -> filter.tells e = true -> '\n' ∉ e.text := by
      intro e he htold
      exact (hasPlainFrame_serve disk t bytes he).newline_not_mem_text fun v => hsent e v he htold
    rw [hobjects, flatMap_entryObjects hplain, List.filter_eq_self]
    intro line hline
    rcases List.mem_map.mp hline with ⟨r, hr, rfl⟩
    exact hresponses r hr
  · refine ⟨[("jsonrpc".toList, .ofText "2.0"), ("id".toList, r.id), r.outcomeMember], ?_⟩
    rw [Response.line, r.text_eq_compact]
    rfl

/-- A request whose method and id are told, on one line each. -/
def plainLine : List UInt8 :=
  Text.encode "\x7b\"method\":\"x\",\"id\":1.5e300\x7d\n".toList

/-- All that is told of the request is told without a line feed, so that its response is the one
object on the error stream. -/
theorem plain_objects_on_error_stream :
    let entries := ((serve FileTree.disk plainLine).run {}).1.entries
    (forall e v, .event e ∈ entries -> LogFilter.standard.tells e = true -> v ∈ e.values ->
      v.1 ∈ Event.sentValues -> '\n' ∉ v.2) /\
    (responses entries).length = 1 /\
    (lines (printed .standard
        (((Command.host).run FileTree.disk plainLine).run {}).1.notices)).filter isObject =
      (responses entries).map Response.line := by
  intro entries
  have hsent : forall e v, .event e ∈ entries -> LogFilter.standard.tells e = true -> v ∈ e.values ->
      v.1 ∈ Event.sentValues -> '\n' ∉ v.2 := by
    have hplain : (((serve FileTree.disk plainLine).run {}).1.entries.all fun entry =>
        match entry with
        | .event e => e.values.all fun v => !v.2.contains '\n'
        | .response _ => true) = true := by
      decide +kernel
    intro e v he _ hv _
    have hvalues := List.all_eq_true.mp (List.all_eq_true.mp hplain _ he) v hv
    simpa using hvalues
  have hcount : (responses entries).length = 1 := by decide +kernel
  exact ⟨hsent, hcount,
    (objects_on_error_stream .standard FileTree.disk plainLine {}).right.left hsent⟩

/-- A line that asks for a method whose name holds an object on a line of its own. -/
def forgingLine : List UInt8 :=
  Text.encode "\x7b\"method\":\"x\\n\x7b\x7d\\ny\"\x7d\n".toList

/-- No response has sent the object. -/
theorem forged_object_on_error_stream :
    Text.encode "\x7b\x7d\n".toList ∈
        (lines (printed .standard
          (((Command.host).run FileTree.disk forgingLine).run {}).1.notices)).filter isObject /\
      Text.encode "\x7b\x7d\n".toList ∉
        (responses ((serve FileTree.disk forgingLine).run {}).1.entries).map Response.line := by
  decide +kernel

end Host

end SchemaTypes
