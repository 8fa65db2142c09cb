import SchemaTypes.Proofs.TypeScript.Copying.Statements

/-!
# Programs of blank texts

A text without visible characters may still hold identifiers.  Its program has no
comments, and no statement of it has structure, since structure is opened by a word.
-/

namespace SchemaTypes
namespace TypeScript

variable {q : Comment -> Prop} {t : Token} {ts rest : List Token}

abbrev HoldsBlanks (q : Comment -> Prop) {α : Type} [HasTexts α] (a : α) : Prop :=
  Holds (fun c => Text.isBlank c = true) q a

theorem HoldsBlanks.allBlank {s : List Char} (h : HoldsBlanks q s) : Text.allBlank s = true :=
  List.all_eq_true.mpr (Holds.text_iff.mp h)

namespace Token

theorem isWord_of_blank (h : HoldsBlanks q t) {w : String} (hw : Text.allBlank w.toList = false) :
    t.isWord w = false := by
  refine Bool.eq_false_iff.mpr fun hword => ?_
  rw [isWord, Bool.and_eq_true, beq_iff_eq, beq_iff_eq] at hword
  rw [← hword.right, HoldsBlanks.allBlank h.tokenText] at hw
  cases hw

theorem isMark_of_blank (h : HoldsBlanks q t) {c : Char} (hc : Text.isBlank c = false) :
    t.isMark c = false := by
  refine Bool.eq_false_iff.mpr fun hmark => ?_
  have hblank := HoldsBlanks.allBlank h.tokenText
  rw [text_of_isMark hmark, Text.allBlank, List.all_cons, hc] at hblank
  cases hblank

end Token

namespace Parser

variable {g : Grammar}

theorem run_opensDeclaration_of_not_word {w : String} (h : t.isWord w = false)
    (fits : Token -> Bool) :
    (opensDeclaration w fits).run (t :: ts) = some (false, t :: ts) := by
  cases ts <;> simp [opensDeclaration, h]

def declarationWords : List String :=
  ["interface", "type", "const", "let", "var", "enum", "function", "async", "class", "abstract",
    "namespace", "module", "import", "declare"]

theorem run_declaration_blank (h : HoldsBlanks q t) (fuel : Nat) :
    (declaration g false fuel).run (t :: ts) = none := by
  cases fuel with
  | zero => rfl
  | succ fuel =>
      have hvisible : forall w, w ∈ declarationWords -> Text.allBlank w.toList = false := by decide
      have hword : forall w, w ∈ declarationWords -> t.isWord w = false := fun w hw =>
        Token.isWord_of_blank h (hvisible w hw)
      have hopens : forall w, w ∈ declarationWords -> forall fits,
          (opensDeclaration w fits).run (t :: ts) = some (false, t :: ts) := fun w hw fits =>
        run_opensDeclaration_of_not_word (hword w hw) fits
      have hat : t.isMark '@' = false := Token.isMark_of_blank h (by decide)
      simp only [declarationWords, List.forall_mem_cons] at hword hopens
      simp only [declaration, Bool.false_eq_true, if_false, Bool.and_eq_true, bind_pure_comp,
        Bool.or_eq_true, StateT.run_bind, run_peek, run_second, Option.bind_eq_bind, Option.bind_some,
        hopens, hword, hat, false_and, false_or, or_self, run_failure]

theorem exists_text_of_textStatement {m : Parser Unit} {s : Statement}
    (hrun : (textStatement m).run ts = some (s, rest)) : exists text, s = .text text := by
  obtain ⟨⟨text, mid⟩, _, heq⟩ := Option.bind_eq_some_iff.mp hrun
  cases heq
  exact ⟨text, rfl⟩

theorem exists_text_of_statement (h : HoldsBlanks q ts) {s : Statement}
    (hrun : (statement g).run ts = some (s, rest)) : exists text, s = .text text := by
  cases ts with
  | nil =>
      simp only [statement, opensDeclaration, atMark, peek, bind_pure_comp, map_bind, bind_assoc,
        bind_map_left, StateT.run_bind, StateT.run_get, StateT.run_pure, Option.pure_def,
        Option.bind_eq_bind, Option.bind_some, Option.bind_none, Bool.false_eq_true, if_false,
        run_failure, reduceCtorEq] at hrun
  | cons t ts =>
      have hexport : t.isWord "export" = false := Token.isWord_of_blank h.head (by decide)
      have hat : t.isMark '@' = false := Token.isMark_of_blank h.head (by decide)
      simp only [statement, StateT.run_bind, run_opensDeclaration_of_not_word hexport, run_atMark, hat,
        StateT.run_get, Option.pure_def, Option.bind_eq_bind, Option.bind_some, Bool.false_eq_true,
        if_false] at hrun
      rw [run_orElse_none (run_declaration_blank h.head _)] at hrun
      exact exists_text_of_textStatement hrun

/-!
## Repetition
-/

variable {p : Char -> Prop} {α : Type} [HasTexts α] {m : Parser α} {R : α -> Prop}

/-- What a parser yields from every list of tokens that holds what the first one did is
yielded by each of its repetitions. -/
theorem forall_of_manyFrom [hm : Copies p q m]
    (hR : forall {ts rest a}, Holds p q ts -> m.run ts = some (a, rest) -> R a) {fuel : Nat} {as : List α}
    (hts : Holds p q ts) (hrun : (manyFrom m fuel).run ts = some (as, rest)) :
    forall a, a ∈ as -> R a := by
  induction fuel generalizing ts as with
  | zero =>
      cases hrun
      exact nofun
  | succ fuel ih =>
      cases hfirst : m.run ts with
      | none =>
          rw [run_manyFrom_nil hfirst] at hrun
          cases hrun
          exact nofun
      | some read =>
          obtain ⟨first, mid⟩ := read
          simp only [manyFrom, StateT.run_bind, run_optional?_some hfirst, Option.bind_eq_bind,
            Option.bind_some] at hrun
          obtain ⟨⟨more, rest'⟩, hmore, heq⟩ := Option.bind_eq_some_iff.mp hrun
          cases heq
          exact List.forall_mem_cons.mpr ⟨hR hts hfirst, ih (hm.run hts hfirst).right hmore⟩

theorem forall_of_many [Copies p q m]
    (hR : forall {ts rest a}, Holds p q ts -> m.run ts = some (a, rest) -> R a) {as : List α}
    (hts : Holds p q ts) (hrun : (many m).run ts = some (as, rest)) : forall a, a ∈ as -> R a := by
  have hfrom : (manyFrom m ts.length).run ts = some (as, rest) := by
    simpa only [many, StateT.run_bind, StateT.run_get, Option.pure_def, Option.bind_eq_bind,
      Option.bind_some] using hrun
  exact forall_of_manyFrom hR hts hfrom

omit [HasTexts α] in
theorem run_of_optional? {a : α} (hrun : (optional? m).run ts = some (some a, rest)) :
    m.run ts = some (a, rest) := by
  cases hm : m.run ts with
  | none =>
      rw [run_optional?_none hm] at hrun
      cases hrun
  | some read =>
      rw [run_optional?_some hm] at hrun
      cases hrun
      rfl

omit [HasTexts α] in
theorem exists_node_of_asItem {item : Item α} (hrun : (asItem m).run ts = some (item, rest)) :
    exists row endRow a, item = .node row endRow a /\ m.run ts = some (a, rest) := by
  simp only [asItem, StateT.run_bind, StateT.run_get, Option.pure_def, Option.bind_eq_bind,
    Option.bind_some] at hrun
  obtain ⟨⟨a, mid⟩, ha, heq⟩ := Option.bind_eq_some_iff.mp hrun
  cases heq
  exact ⟨_, _, a, rfl, ha⟩

end Parser

/-!
## Programs
-/

namespace Program

def IsPlainItem (item : Item Statement) : Prop :=
  (exists c, item = .comment c) \/ exists row endRow s, item = .node row endRow (.text s)

theorem isPlainItem_of_items {m : Parser Statement}
    (hm : forall {ts rest s}, HoldsBlanks q ts -> m.run ts = some (s, rest) -> exists text, s = .text text)
    (hts : HoldsBlanks q ts) {items : List (Item Statement)}
    (hrun : (Program.items m).run ts = some (items, rest)) : forall item, item ∈ items -> IsPlainItem item := by
  obtain ⟨⟨comments, mid⟩, hcomments, hrun⟩ := Option.bind_eq_some_iff.mp hrun
  have hmid : HoldsBlanks q mid := (Parser.Copies.comments.run hts hcomments).right
  obtain ⟨⟨item, mid'⟩, hitem, heq⟩ := Option.bind_eq_some_iff.mp hrun
  cases heq
  obtain ⟨row, endRow, s, rfl, hs⟩ := Parser.exists_node_of_asItem hitem
  obtain ⟨text, rfl⟩ := hm hmid hs
  intro item hitem
  rcases List.mem_append.mp hitem with hcomment | hnode
  · obtain ⟨c, _, rfl⟩ := List.mem_map.mp hcomment
    exact .inl ⟨c, rfl⟩
  · rw [List.mem_singleton.mp hnode]
    exact .inr ⟨row, endRow, text, rfl⟩

theorem isPlainItem_of_run {g : Grammar} [g.Copies (fun c => Text.isBlank c = true) q]
    (hg : forall {ts rest s}, HoldsBlanks q ts -> g.statement.run ts = some (s, rest) ->
      exists text, s = .text text)
    (hts : HoldsBlanks q ts) {program : Program}
    (hrun : (parser g).run ts = some (program, rest)) : forall item, item ∈ program -> IsPlainItem item := by
  obtain ⟨⟨interpreter, behindLine⟩, hinterpreter, hrun⟩ := Option.bind_eq_some_iff.mp hrun
  have hline := (Parser.Copies.optional?.run hts hinterpreter).right
  obtain ⟨⟨statements, behind⟩, hstatements, hrun⟩ := Option.bind_eq_some_iff.mp hrun
  obtain ⟨⟨comments, _⟩, _, hrun⟩ := Option.bind_eq_some_iff.mp hrun
  obtain ⟨⟨atEnd, _⟩, _, hrun⟩ := Option.bind_eq_some_iff.mp hrun
  obtain ⟨_, _, hrun⟩ := Option.bind_eq_some_iff.mp hrun
  cases hrun
  have hfirst : forall item, item ∈ interpreter.getD [] -> IsPlainItem item := by
    cases interpreter with
    | none => exact nofun
    | some items =>
        exact isPlainItem_of_items (fun _ => Parser.exists_text_of_textStatement) hts
          (Parser.run_of_optional? hinterpreter)
  have hmore : forall items, items ∈ statements -> forall item, item ∈ items -> IsPlainItem item :=
    Parser.forall_of_many (fun hts hrun => isPlainItem_of_items hg hts hrun) hline hstatements
  intro item hitem
  rcases List.mem_append.mp hitem with hitem | hcomment
  · rcases List.mem_append.mp hitem with hitem | hitem
    · exact hfirst item hitem
    · obtain ⟨items, hitems, hitem⟩ := List.mem_flatten.mp hitem
      exact hmore items hitems item hitem
  · obtain ⟨c, _, rfl⟩ := List.mem_map.mp hcomment
    exact .inl ⟨c, rfl⟩

theorem exists_blank_of_parse {source : List Char} {program : Program}
    (hblank : Text.allBlank source = true) (h : parse? source = some program) {item : Item Statement}
    (hitem : item ∈ program) :
    exists row endRow s, item = .node row endRow (.text s) /\ Text.allBlank s = true := by
  have hholds := (holds_of_parse h (List.all_eq_true.mp hblank)).of_mem hitem
  obtain ⟨ts, hts, h⟩ := Option.bind_eq_some_iff.mp h
  obtain ⟨⟨program', rest⟩, hrun, h⟩ := Option.bind_eq_some_iff.mp h
  cases h
  have htokens := holds_of_tokens hts (List.all_eq_true.mp hblank)
  have hstatement : forall {ts' rest s}, HoldsBlanks (fun c => exists more, c.text = '/' :: more) ts' ->
      (Grammar.upTo (2 * ts.length + 2)).statement.run ts' = some (s, rest) ->
      exists text, s = .text text := fun hts hrun =>
    Parser.exists_text_of_statement (g := Grammar.upTo (2 * ts.length + 1)) hts hrun
  rcases isPlainItem_of_run hstatement htokens hrun item hitem with
    ⟨c, rfl⟩ | ⟨row, endRow, s, rfl⟩
  · obtain ⟨more, hslash⟩ := hholds.comments c (List.mem_singleton_self c)
    have hvisible := hholds.chars '/' (by
      show '/' ∈ c.text
      rw [hslash]
      exact List.mem_cons_self)
    cases hvisible
  · exact ⟨row, endRow, s, rfl, List.all_eq_true.mpr hholds.chars⟩

end Program

end TypeScript
end SchemaTypes
