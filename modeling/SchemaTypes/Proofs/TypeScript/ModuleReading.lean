import SchemaTypes.Proofs.TypeScript.Signature

/-!
# Imports and exports of names

A statement that imports names from a module or exports names is kept as text, and that text
is read again whatever stands behind it.
-/

namespace SchemaTypes
namespace TypeScript

/-!
## Spellings
-/

namespace Module

open Header

/-- A name, perhaps with another name that it is given. -/
inductive IsRenamed (name : List Char) : List Lexeme -> Prop where
  | plain (b : List Char) : IsRenamed name [.word (.ofBlank b) name]
  | renamed (b b' b'' other : List Char) :
      IsRenamed name
        [.word (.ofBlank b) name, .keyword (.ofBlank b') "as", .word (.ofBlank b'') other]

def isTypeWord (name : List Char) : Bool :=
  ["type", "typeof"].any (name == ·.toList)

inductive IsEntry : List Lexeme -> Prop where
  | plain {name : List Char} {ls : List Lexeme} (hname : isTypeWord name = false)
      (h : IsRenamed name ls) : IsEntry ls
  | typed (b : List Char) {name : List Char} {ls : List Lexeme}
      (hname : (name == "as".toList) = false) (h : IsRenamed name ls) :
      IsEntry (.keyword (.ofBlank b) "type" :: ls)

/-- Names between braces, perhaps with a comma behind the last of them. -/
inductive AreNames (b : List Char) : List Lexeme -> Prop where
  | none (b' : List Char) : AreNames b [.mark b '\x7b', .mark b' '\x7d']
  | some (b' : List Char) (trailing : Option (List Char)) {ls : List Lexeme}
      (h : IsList IsEntry ls) :
      AreNames b
        (.mark b '\x7b' :: (ls ++ (trailing.toList.map (.mark · ',') ++ [.mark b' '\x7d'])))

inductive AreImported : List Lexeme -> Prop where
  | names {b : List Char} {ls : List Lexeme} (h : AreNames b ls) : AreImported ls
  | all (b b' b'' : List Char) {name : List Char} (hname : isIdentifier name = true) :
      AreImported [.mark b '*', .keyword (.ofBlank b') "as", .word (.ofBlank b'') name]

/-- Names behind the one that stands for what a module exports by default. -/
inductive IsClause : List Lexeme -> Prop where
  | names {ls : List Lexeme} (h : AreImported ls) : IsClause ls
  | byDefault (b : List Char) {name : List Char} (hname : isIdentifier name = true)
      (hword : isTypeWord name = false) : IsClause [.word (.ofBlank b) name]
  | both (b b' : List Char) {name : List Char} {ls : List Lexeme} (hname : isIdentifier name = true)
      (hword : isTypeWord name = false) (h : AreImported ls) :
      IsClause (.word (.ofBlank b) name :: .mark b' ',' :: ls)

/-- The module that names come from and the end of the statement. -/
inductive IsSource : List Lexeme -> Prop where
  | named {b : List Char} (b' b'' s : List Char) (hb : isRowBlank b = true) :
      IsSource [.keyword (.ofBlank b) "from", .string (.ofBlank b') s, .mark b'' ';']

inductive IsImport : List Lexeme -> Prop where
  | effects (b b' s : List Char) : IsImport [.string (.ofBlank b) s, .mark b' ';']
  | names {clause source : List Lexeme} (hclause : IsClause clause) (hsource : IsSource source) :
      IsImport (clause ++ source)
  | types (b : List Char) {clause source : List Lexeme} (hclause : IsClause clause)
      (hsource : IsSource source) :
      IsImport (.keyword (.ofBlank b) "type" :: (clause ++ source))

inductive IsEnd : List Lexeme -> Prop where
  | here (b : List Char) : IsEnd [.mark b ';']
  | source {ls : List Lexeme} (h : IsSource ls) : IsEnd ls

inductive IsExport : List Lexeme -> Prop where
  | names {b : List Char} {ls ending : List Lexeme} (hb : isRowBlank b = true) (h : AreNames b ls)
      (hend : IsEnd ending) : IsExport (ls ++ ending)
  | types {b b' : List Char} {ls ending : List Lexeme} (hb : isRowBlank b = true)
      (h : AreNames b' ls) (hend : IsEnd ending) :
      IsExport (.keyword (.ofBlank b) "type" :: (ls ++ ending))
  | all {b : List Char} {source : List Lexeme} (hb : isRowBlank b = true) (hsource : IsSource source) :
      IsExport (.mark b '*' :: source)
  | allAs {b : List Char} (b' b'' name : List Char) {source : List Lexeme} (hb : isRowBlank b = true)
      (hsource : IsSource source) :
      IsExport (.mark b '*' :: .keyword (.ofBlank b') "as" :: .word (.ofBlank b'') name :: source)

inductive IsStatement : List Lexeme -> Prop where
  | imports {ls : List Lexeme} (h : IsImport ls) :
      IsStatement (.keyword (.ofBlank []) "import" :: ls)
  | exports {ls : List Lexeme} (h : IsExport ls) :
      IsStatement (.keyword (.ofBlank []) "export" :: ls)

example : Lexeme.SpelledAs IsStatement "import A from \"a\";".toList := by
  have hclause : IsClause [.word (.ofBlank [' ']) ['A']] := .byDefault [' '] (by decide) (by decide)
  have hsource : IsSource [.keyword (.ofBlank [' ']) "from", .string (.ofBlank [' ']) "\"a\"".toList,
      .mark [] ';'] := .named [' '] [] _ rfl
  refine ⟨_, .imports (.names hclause hsource), ?_, rfl⟩
  simp [Lexeme.Apart]
  decide

section

variable {ls : List Lexeme}

theorem isClosed_source (h : IsSource ls) : Lexeme.IsClosed ls := by
  cases h with
  | named b' b'' s _ => exact ((Lexeme.isClosed_mark b'').cons _).cons _

theorem isClosed_end (h : IsEnd ls) : Lexeme.IsClosed ls := by
  cases h with
  | here b => exact Lexeme.isClosed_mark b
  | source h => exact isClosed_source h

theorem isClosed_import (h : IsImport ls) : Lexeme.IsClosed ls := by
  cases h with
  | effects b b' s => exact (Lexeme.isClosed_mark b').cons _
  | names _ hsource => exact (isClosed_source hsource).append _
  | types b _ hsource => exact ((isClosed_source hsource).append _).cons _

theorem isClosed_export (h : IsExport ls) : Lexeme.IsClosed ls := by
  cases h with
  | names _ _ hend => exact (isClosed_end hend).append _
  | types _ _ hend => exact ((isClosed_end hend).append _).cons _
  | all _ hsource => exact (isClosed_source hsource).cons _
  | allAs b' b'' name _ hsource => exact (((isClosed_source hsource).cons _).cons _).cons _

theorem statement_eq_cons (h : IsStatement ls) :
    exists w more, ls = .keyword (.ofBlank []) w :: more /\ Lexeme.IsClosed more /\
      w ∈ ["import", "export"] := by
  cases h with
  | imports h => exact ⟨"import", _, rfl, isClosed_import h, by decide⟩
  | exports h => exact ⟨"export", _, rfl, isClosed_export h, by decide⟩

end

end Module

/-!
## Reading names
-/

namespace Parser

open TypeScript.Module

variable {g : Grammar} {row : Nat} {ls : List Lexeme} {ts rest : List Token} {t u : Token}

/-- The rule for a name with the name that it is given. -/
def renamed : Parser Unit := do
  moduleName
  if ← word? "as" then
    moduleName

/-- The rule for what stands between the commas of names. -/
def nameEntry : Parser Unit :=
  (do
    require ((← atWord "type") || (← atWord "typeof"))
    let _ ← advance
    require (!(← atWord "as"))
    renamed) <|> renamed

theorem run_moduleName (gap : Gap) (s : List Char) (row : Nat) (rest : List Token) :
    moduleName.run ((Lexeme.word gap s).token row :: rest) = some ((), rest) := by
  simp [moduleName, run_atKind, kind, run_require_true, run_advance]

theorem run_renamed {name : List Char} (h : IsRenamed name ls) (row : Nat)
    (hrest : Ends [',', '\x7d'] rest) :
    renamed.run (Lexeme.place row ls ++ rest) = some ((), rest) := by
  cases h with
  | plain b =>
      obtain ⟨t, ts, c, rfl, -, ht⟩ := hrest
      have has : t.isWord "as" = false := by
        refine Token.isWord_of_kind ?_ "as"
        rw [Token.kind_of_isMark ht]
        decide
      simp [renamed, run_moduleName, run_word?, has]
  | renamed b b' b'' other => simp [renamed, run_moduleName, run_word?]

/-- No name is taken for a type unless it is called one. -/
theorem run_typed_none (p : Parser Unit) (htype : t.isWord "type" = false)
    (htypeof : t.isWord "typeof" = false) (ts : List Token) :
    (do
      require ((← atWord "type") || (← atWord "typeof"))
      let _ ← advance
      p : Parser Unit).run (t :: ts) = none := by
  refine (run_bind_some (run_atWord "type")).trans ((run_bind_some (run_atWord "typeof")).trans ?_)
  rw [htype, htypeof]
  exact run_bind_none run_require_false

theorem run_typed (p : Parser Unit) (b : List Char) (row : Nat) (ts : List Token) :
    (do
      require ((← atWord "type") || (← atWord "typeof"))
      let _ ← advance
      p : Parser Unit).run ((Lexeme.keyword (.ofBlank b) "type").token row :: ts) = p.run ts := by
  refine (run_bind_some (run_atWord "type")).trans ((run_bind_some (run_atWord "typeof")).trans ?_)
  rw [Lexeme.isWord_keyword, beq_self_eq_true, Bool.true_or]
  refine (run_bind_some run_require_true).trans ?_
  exact run_bind_some (run_advance (by simp))

theorem renamed_eq_cons {name : List Char} (h : IsRenamed name ls) :
    exists b more, ls = .word (.ofBlank b) name :: more := by
  cases h <;> exact ⟨_, _, rfl⟩

theorem readsItem_nameEntry (h : IsEntry ls) : ReadsItem nameEntry ['\x7d'] ls := by
  intro row rest hrest
  cases h with
  | plain hname h =>
      have hread := run_renamed h row hrest
      obtain ⟨b, more, rfl⟩ := renamed_eq_cons h
      refine (run_orElse_none (run_typed_none _ ?_ ?_ _)).trans hread
      · exact isWord_of_excluded hname (by decide)
      · exact isWord_of_excluded hname (by decide)
  | @typed b name ls hname h =>
      have hread := run_renamed h (row + Lexeme.rows [.keyword (.ofBlank b) "type"]) hrest
      obtain ⟨b', more, rfl⟩ := renamed_eq_cons h
      refine run_orElse_some ((run_typed _ b row _).trans ?_)
      refine (run_bind_some (run_atWord "as")).trans ?_
      rw [Lexeme.isWord_word, hname]
      exact (run_bind_some run_require_true).trans hread

theorem run_nameEntry_none (h : t.kind = .mark) (ts : List Token) : nameEntry.run (t :: ts) = none := by
  have hword : forall w, t.isWord w = false := by
    refine Token.isWord_of_kind ?_
    rw [h]
    decide
  have hname : moduleName.run (t :: ts) = none := by
    refine (run_bind_some (run_atKind .string)).trans ?_
    rw [h]
    refine run_bind_none ((run_bind_some (run_atKind .word)).trans ?_)
    rw [h]
    rfl
  have hrenamed : renamed.run (t :: ts) = none := run_bind_none hname
  exact (run_orElse_none (run_typed_none _ (hword "type") (hword "typeof") ts)).trans hrenamed

/-- Behind the last name stands a closing brace or a comma and a closing brace. -/
theorem run_namesEnd (b' : List Char) (trailing : Option (List Char)) (row : Nat) (rest : List Token) :
    (do
      let _ ← mark? ','
      let _ ← mark '\x7d' : Parser Unit).run
        (Lexeme.place row (trailing.toList.map (.mark · ',') ++ [.mark b' '\x7d']) ++ rest) =
      some ((), rest) := by
  cases trailing <;> simp [run_mark?, run_mark]

theorem run_moduleNames {b : List Char} (h : AreNames b ls) (row : Nat) (rest : List Token) :
    moduleNames.run (Lexeme.place row ls ++ rest) = some ((), rest) := by
  have hopen : forall us, (mark '\x7b').run ((Lexeme.mark b '\x7b').token row :: us) =
      some ((Lexeme.mark b '\x7b').token row, us) := fun us => run_mark (by simp)
  cases h with
  | none b' =>
      have hnone : (separated (mark ',') nameEntry).run
          ((Lexeme.mark b' '\x7d').token (row + Lexeme.rows [.mark b '\x7b']) :: rest) = none :=
        run_bind_none (run_nameEntry_none (by simp) rest)
      refine (run_bind_some (hopen _)).trans ((run_bind_some (run_optional?_none hnone)).trans ?_)
      exact run_namesEnd b' none _ rest
  | @some b' trailing ks h =>
      obtain ⟨behind, hbehind⟩ : exists behind : List Lexeme,
          behind = trailing.toList.map (.mark · ',') ++ [.mark b' '\x7d'] := ⟨_, rfl⟩
      have hends : forall row, Ends [',', '\x7d'] (Lexeme.place row behind ++ rest) := by
        intro row
        rw [hbehind]
        cases trailing <;> exact ends_mark _ (by decide) row _
      have hnone : forall row,
          (do let _ ← mark ','; nameEntry : Parser Unit).run (Lexeme.place row behind ++ rest) = none := by
        intro row
        rw [hbehind]
        cases trailing with
        | none => exact run_further_none (by simp) _ _
        | some b'' =>
            refine (run_bind_some (run_mark (by simp))).trans ?_
            exact run_nameEntry_none (by simp) rest
      obtain ⟨us, hlist⟩ := run_list (hends (row + Lexeme.rows [.mark b '\x7b'] + Lexeme.rows ks))
        (hnone _) h (fun js hjs _ => readsItem_nameEntry hjs) (row + Lexeme.rows [.mark b '\x7b'])
      have hend := run_namesEnd b' trailing
        (row + Lexeme.rows [.mark b '\x7b'] + Lexeme.rows ks) rest
      rw [← hbehind] at hend ⊢
      rw [Lexeme.place_cons, List.cons_append, Lexeme.place_append, List.append_assoc]
      refine (run_bind_some (hopen _)).trans ((run_bind_some (run_optional?_some hlist)).trans ?_)
      exact hend

/-!
## Reading imports
-/

/-- The rule of an import for names between braces and for all names at once. -/
def importedNames : Parser Unit := do
  if ← mark? '*' then
    let _ ← word "as"
    let _ ← identifier
  else
    moduleNames

def importClause : Parser Unit := do
  if (← atMark '\x7b') || (← atMark '*') then
    importedNames
  else
    let _ ← identifier
    if ← mark? ',' then
      importedNames

def requiredImport : Parser Unit := do
  let _ ← identifier
  let _ ← mark '='
  let _ ← word "require"
  let _ ← mark '('
  let _ ← kind .string
  let _ ← mark ')'
  semicolon false

def plainImport (g : Grammar) : Parser Unit := do
  if ← atKind .string then
    moduleSource g
  else
    importClause
    fromClause g
  semicolon false

theorem importStatement_eq (g : Grammar) :
    importStatement g = (do
      let _ ← word "import"
      (do
        require ((← atWord "type") || (← atWord "typeof"))
        let _ ← advance
        requiredImport <|> plainImport g) <|> requiredImport <|> importAlias <|> plainImport g) :=
  rfl

theorem run_source (h : IsSource ls) (row : Nat) (rest : List Token) :
    (do
      fromClause g
      semicolon false : Parser Unit).run (Lexeme.place row ls ++ rest) = some ((), rest) := by
  cases h with
  | named b' b'' s hb =>
      simp [fromClause, moduleSource, run_word, kind, run_atKind, run_require_true, run_advance,
        run_atWord, run_endsHere, semicolon, run_mark?]

theorem run_importedNames (h : AreImported ls) (row : Nat) (rest : List Token) :
    importedNames.run (Lexeme.place row ls ++ rest) = some ((), rest) := by
  cases h with
  | @names b _ h =>
      have hread := run_moduleNames h row rest
      have hstar : (mark? '*').run (Lexeme.place row ls ++ rest) =
          some (false, Lexeme.place row ls ++ rest) := by
        cases h <;> simp [run_mark?]
      exact (run_bind_some hstar).trans hread
  | all b b' b'' hname => simp [importedNames, run_mark?, run_word, run_identifier hname]

theorem imported_eq_cons (h : AreImported ls) :
    exists b c more, ls = .mark b c :: more /\ c ∈ ['\x7b', '*'] := by
  cases h with
  | names h => cases h <;> exact ⟨_, '\x7b', _, rfl, by decide⟩
  | all b b' b'' _ => exact ⟨b, '*', _, rfl, by decide⟩

theorem run_importClause (h : IsClause ls) (row : Nat) (ht : t.isWord "from" = true)
    (ts : List Token) :
    importClause.run (Lexeme.place row ls ++ t :: ts) = some ((), t :: ts) := by
  have hcomma : t.isMark ',' = false := by
    refine Token.isMark_of_kind ?_ ','
    rw [Token.kind_of_isWord ht]
    decide
  cases h with
  | names h =>
      have hread := run_importedNames h row (t :: ts)
      obtain ⟨b, c, more, rfl, hc⟩ := imported_eq_cons h
      have hopens : (((Lexeme.mark b c).token row).isMark '\x7b' ||
          ((Lexeme.mark b c).token row).isMark '*') = true := by
        simpa using hc
      rw [Lexeme.place_cons, List.cons_append] at hread ⊢
      refine (run_bind_some (run_atMark '\x7b')).trans ((run_bind_some (run_atMark '*')).trans ?_)
      rw [hopens, if_pos rfl, hread]
  | byDefault b hname _ => simp [importClause, run_atMark, run_identifier hname, run_mark?, hcomma]
  | @both b b' name ks hname _ h =>
      have hread := run_importedNames h
        (row + Lexeme.rows [.word (.ofBlank b) name] + Lexeme.rows [.mark b' ',']) (t :: ts)
      simp [importClause, run_atMark, run_identifier hname, run_mark?, hread]

theorem run_plainImport {clause : List Lexeme} (hclause : IsClause clause) (hsource : IsSource ls)
    (row : Nat) (rest : List Token) :
    (plainImport g).run (Lexeme.place row (clause ++ ls) ++ rest) = some ((), rest) := by
  have hread := @run_source g ls hsource (row + Lexeme.rows clause) rest
  have hstring : (atKind .string).run (Lexeme.place row (clause ++ ls) ++ rest) =
      some (false, Lexeme.place row (clause ++ ls) ++ rest) := by
    cases hclause with
    | names h =>
        obtain ⟨b, c, more, rfl, -⟩ := imported_eq_cons h
        simp [run_atKind]
    | byDefault b _ _ => simp [run_atKind]
    | both b b' _ _ _ => simp [run_atKind]
  cases hsource with
  | @named b b' b'' s hb =>
      have hfirst := run_importClause hclause row
        (show ((Lexeme.keyword (.ofBlank b) "from").token (row + Lexeme.rows clause)).isWord "from" = true
          by simp) (Lexeme.place (row + Lexeme.rows clause + Lexeme.rows [.keyword (.ofBlank b) "from"])
            [.string (.ofBlank b') s, .mark b'' ';'] ++ rest)
      refine (run_bind_some hstring).trans ?_
      rw [Lexeme.place_append, List.append_assoc]
      exact (run_bind_some hfirst).trans hread

/-- Behind the opening word of an import stands no assignment. -/
theorem run_assignment_none {clause : List Lexeme} (hclause : IsClause clause) (hsource : IsSource ls)
    (p : Parser Unit) (row : Nat) (rest : List Token) :
    (do
      let _ ← identifier
      let _ ← mark '='
      p : Parser Unit).run (Lexeme.place row (clause ++ ls) ++ rest) = none := by
  cases hclause with
  | names h =>
      obtain ⟨b, c, more, rfl, -⟩ := imported_eq_cons h
      exact run_bind_none (run_wordOutside_none (by simp))
  | byDefault b hname _ =>
      refine (run_bind_some (run_identifier hname _ _ _)).trans (run_bind_none ?_)
      cases hsource
      exact run_mark_none (by simp)
  | both b b' hname _ h =>
      refine (run_bind_some (run_identifier hname _ _ _)).trans (run_bind_none ?_)
      exact run_mark_none (by simp)

theorem run_importTyped_none {clause : List Lexeme} (hclause : IsClause clause) (p : Parser Unit)
    (row : Nat) (rest : List Token) :
    (do
      require ((← atWord "type") || (← atWord "typeof"))
      let _ ← advance
      p : Parser Unit).run (Lexeme.place row clause ++ rest) = none := by
  cases hclause with
  | names h =>
      obtain ⟨b, c, more, rfl, -⟩ := imported_eq_cons h
      exact run_typed_none p (by simp) (by simp) _
  | byDefault b _ hword =>
      exact run_typed_none p (isWord_of_excluded hword (by decide)) (isWord_of_excluded hword (by decide)) _
  | both b b' _ hword _ =>
      exact run_typed_none p (isWord_of_excluded hword (by decide)) (isWord_of_excluded hword (by decide)) _

theorem run_effectsImport (b b' s : List Char) (row : Nat) (rest : List Token) :
    (requiredImport <|> importAlias <|> plainImport g).run
        (Lexeme.place row [.string (.ofBlank b) s, .mark b' ';'] ++ rest) = some ((), rest) := by
  have hrequired : requiredImport.run
      (Lexeme.place row [.string (.ofBlank b) s, .mark b' ';'] ++ rest) = none :=
    run_bind_none (run_wordOutside_none (by simp))
  have halias : importAlias.run
      (Lexeme.place row [.string (.ofBlank b) s, .mark b' ';'] ++ rest) = none :=
    run_bind_none (run_wordOutside_none (by simp))
  rw [run_orElse_none hrequired, run_orElse_none halias]
  simp [plainImport, moduleSource, kind, run_atKind, run_require_true, run_advance, run_atWord,
    run_endsHere, semicolon, run_mark?]

theorem run_importStatement (h : IsImport ls) (ht : t.isWord "import" = true) (row : Nat)
    (rest : List Token) :
    (importStatement g).run (t :: (Lexeme.place row ls ++ rest)) = some ((), rest) := by
  rw [importStatement_eq]
  refine (run_bind_some (run_word ht)).trans ?_
  cases h with
  | effects b b' s =>
      exact (run_orElse_none (run_typed_none _ (by simp) (by simp) _)).trans
        (run_effectsImport b b' s row rest)
  | @names clause source hclause hsource =>
      have htyped := fun p => run_importTyped_none hclause p row
        (Lexeme.place (row + Lexeme.rows clause) source ++ rest)
      rw [← List.append_assoc, ← Lexeme.place_append] at htyped
      have hrequired : requiredImport.run (Lexeme.place row (clause ++ source) ++ rest) = none :=
        run_assignment_none hclause hsource _ row rest
      have halias : importAlias.run (Lexeme.place row (clause ++ source) ++ rest) = none :=
        run_assignment_none hclause hsource _ row rest
      refine (run_orElse_none (htyped _)).trans ?_
      rw [run_orElse_none hrequired, run_orElse_none halias]
      exact run_plainImport hclause hsource row rest
  | @types b clause source hclause hsource =>
      have hrequired : requiredImport.run (Lexeme.place (row + Lexeme.rows [.keyword (.ofBlank b) "type"])
          (clause ++ source) ++ rest) = none := run_assignment_none hclause hsource _ _ rest
      refine run_orElse_some ((run_typed _ b row _).trans ?_)
      exact (run_orElse_none hrequired).trans (run_plainImport hclause hsource _ rest)

/-!
## Reading exports
-/

theorem run_end (h : IsEnd ls) (row : Nat) (rest : List Token) :
    (do
      if (← atWord "from") && !(← endsHere .typeEnding) then
        fromClause g
      semicolon false : Parser Unit).run (Lexeme.place row ls ++ rest) = some ((), rest) := by
  cases h with
  | here b => simp [run_atWord, run_endsHere, semicolon, run_mark?]
  | source h =>
      have hread := @run_source g ls h row rest
      cases h with
      | @named b b' b'' s hb =>
          have hends : forall ts, Context.typeEnding.endsBefore
              ((Lexeme.keyword (.ofBlank b) "from").token row :: ts) = false :=
            fun ts => endsBefore_token .typeEnding Lexeme.keyword_gap hb (by simp) (by simp) ts
          rw [Lexeme.place_cons, List.cons_append] at hread ⊢
          refine (run_bind_some (run_atWord "from")).trans ((run_bind_some (run_endsHere _)).trans ?_)
          rw [Lexeme.isWord_keyword, beq_self_eq_true, hends]
          exact hread

theorem run_exportedNames {b : List Char} (h : AreNames b ls) {ending : List Lexeme}
    (hend : IsEnd ending) (row : Nat) (rest : List Token) :
    (do
      moduleNames
      if (← atWord "from") && !(← endsHere .typeEnding) then
        fromClause g
      semicolon false : Parser Unit).run (Lexeme.place row (ls ++ ending) ++ rest) =
      some ((), rest) := by
  have hnames := run_moduleNames h row (Lexeme.place (row + Lexeme.rows ls) ending ++ rest)
  rw [Lexeme.place_append, List.append_assoc]
  exact (run_bind_some hnames).trans (run_end hend _ rest)

theorem names_eq_cons {b : List Char} (h : AreNames b ls) :
    exists more, ls = .mark b '\x7b' :: more := by
  cases h <;> exact ⟨_, rfl⟩

theorem run_exported_names {b : List Char} (h : AreNames b ls) {ending : List Lexeme}
    (hend : IsEnd ending) (decorated : Bool) (row : Nat) (rest : List Token) :
    (exported g decorated).run (Lexeme.place row (ls ++ ending) ++ rest) =
      some ((default, none), rest) := by
  have hread := @run_exportedNames g ls b h ending hend row rest
  obtain ⟨more, rfl⟩ := names_eq_cons h
  rw [List.cons_append, Lexeme.place_cons, List.cons_append] at hread ⊢
  have hbrace : ((Lexeme.mark b '\x7b').token row).isMark '\x7b' = true := by simp
  have hstar : ((Lexeme.mark b '\x7b').token row).isMark '*' = false := by simp
  simp only [exported, StateT.run_bind, StateT.run_get, StateT.run_pure, Option.pure_def,
    Option.bind_eq_bind, Option.bind_some, run_atMark, run_atWord, run_second, run_word?,
    Lexeme.isWord_mark, hbrace, hstar, Bool.true_or, Bool.false_eq_true, if_true, if_false] at hread ⊢
  rw [hread]
  rfl

theorem run_exported_types {b b' : List Char} (h : AreNames b' ls) {ending : List Lexeme}
    (hend : IsEnd ending) (decorated : Bool) (row : Nat) (rest : List Token) :
    (exported g decorated).run
        (Lexeme.place row (.keyword (.ofBlank b) "type" :: (ls ++ ending)) ++ rest) =
      some ((default, none), rest) := by
  have hread := @run_exportedNames g ls b' h ending hend
    (row + Lexeme.rows [.keyword (.ofBlank b) "type"]) rest
  obtain ⟨more, rfl⟩ := names_eq_cons h
  rw [List.cons_append, Lexeme.place_cons, List.cons_append] at hread
  rw [Lexeme.place_cons, List.cons_append, List.cons_append, Lexeme.place_cons, List.cons_append]
  generalize row + Lexeme.rows [.keyword (.ofBlank b) "type"] = row' at hread ⊢
  have hbrace : ((Lexeme.mark b' '\x7b').token row').isMark '\x7b' = true := by simp
  have htype : ((Lexeme.keyword (.ofBlank b) "type").token row).isWord "type" = true := by simp
  simp only [exported, StateT.run_bind, StateT.run_get, StateT.run_pure, Option.pure_def,
    Option.bind_eq_bind, Option.bind_some, run_atMark, run_atWord, run_second, run_word?,
    Lexeme.isMark_keyword, List.head?_cons, Option.any_some, htype, hbrace, Bool.and_self,
    Bool.or_true, Bool.false_eq_true, if_true, if_false] at hread ⊢
  rw [hread]
  rfl

/-- All names of a module, perhaps under one name. -/
theorem run_exported_all {b : List Char} (h : (do
      if ← word? "as" then
        moduleName
      fromClause g
      semicolon false : Parser Unit).run ts = some ((), rest)) (decorated : Bool) (row : Nat) :
    (exported g decorated).run ((Lexeme.mark b '*').token row :: ts) =
      some ((default, none), rest) := by
  have hstar : ((Lexeme.mark b '*').token row).isMark '*' = true := by simp
  simp only [exported, StateT.run_bind, StateT.run_get, StateT.run_pure, Option.pure_def,
    Option.bind_eq_bind, Option.bind_some, run_atMark, run_advance (Token.ne_endOfSource_of_isMark hstar),
    hstar, if_true] at h ⊢
  rw [h]
  rfl

theorem run_exported_module (h : IsExport ls) (decorated : Bool) (row : Nat) (rest : List Token) :
    (exported g decorated).run (Lexeme.place row ls ++ rest) = some ((default, none), rest) := by
  cases h with
  | names hb hnames hend => exact run_exported_names hnames hend decorated row rest
  | types hb hnames hend => exact run_exported_types hnames hend decorated row rest
  | @all b source hb hsource =>
      have hread := @run_source g source hsource (row + Lexeme.rows [.mark b '*']) rest
      have has : (word? "as").run (Lexeme.place (row + Lexeme.rows [.mark b '*']) source ++ rest) =
          some (false, Lexeme.place (row + Lexeme.rows [.mark b '*']) source ++ rest) := by
        cases hsource
        simp [run_word?]
      exact run_exported_all ((run_bind_some has).trans hread) decorated row
  | @allAs b b' b'' name source hb hsource =>
      have hread := @run_source g source hsource
      have has : forall gap row ts, (word? "as").run ((Lexeme.keyword gap "as").token row :: ts) =
          some (true, ts) := by
        simp [run_word?]
      refine run_exported_all ((run_bind_some (has _ _ _)).trans ?_) decorated row
      exact (run_bind_some (run_moduleName _ _ _ _)).trans (hread _ rest)

theorem run_decorators (h : t.kind = .word) :
    (many (decorator g)).run (t :: ts) = some ([], t :: ts) := by
  have hat : t.isMark '@' = false := by
    refine Token.isMark_of_kind ?_ _
    rw [h]
    decide
  exact run_many_nil (by simp [decorator, run_mark_none hat])

/-!
## Reading statements
-/

theorem run_opensDeclaration_none {w : String} (h : t.isWord w = false) (fits : Token -> Bool)
    (ts : List Token) :
    (opensDeclaration w fits).run (t :: ts) = some (false, t :: ts) := by
  cases ts <;> simp [opensDeclaration, h]

theorem run_opensDeclaration_of {fits : Token -> Bool} (hfits : fits u = true) {us : List Token}
    (hends : Context.expressionEnding.endsBefore (u :: us) = false) (t : Token) (w : String) :
    (opensDeclaration w fits).run (t :: u :: us) = some (t.isWord w, t :: u :: us) := by
  simp [opensDeclaration, hfits, hends]

theorem clause_eq_cons {clause : List Lexeme} (h : Module.IsClause clause) :
    exists l more, clause = l :: more /\ forall row, (l.token row).isMark '=' = false := by
  have hmarks : forall c, c ∈ ['\x7b', '*'] -> c ≠ '=' := forall_mem_of_all (by decide)
  cases h with
  | names h =>
      obtain ⟨b, c, more, rfl, hc⟩ := imported_eq_cons h
      refine ⟨_, more, rfl, ?_⟩
      intro row
      simpa using hmarks c hc
  | byDefault b _ _ => exact ⟨_, _, rfl, by simp⟩
  | both b b' _ _ _ => exact ⟨_, _, rfl, by simp⟩

theorem run_importAlias_none (h : IsImport ls) (row : Nat) (rest : List Token) :
    importAlias.run (Lexeme.place row ls ++ rest) = none := by
  cases h with
  | effects b b' s => exact run_bind_none (run_wordOutside_none (by simp))
  | names hclause hsource => exact run_assignment_none hclause hsource _ row rest
  | types b hclause _ =>
      obtain ⟨l, more, rfl, hl⟩ := clause_eq_cons hclause
      have htype := run_identifier (show isIdentifier "type".toList = true by decide) (.ofBlank b) row
      exact (run_bind_some (htype _)).trans (run_bind_none (run_mark_none (hl _)))

/-- An import of names is no declaration, which only gives another name to a name. -/
theorem run_declaration_import_none (h : IsImport ls) (ht : t.isWord "import" = true) (row : Nat)
    (rest : List Token) (fuel : Nat) :
    (declaration g false fuel).run (t :: (Lexeme.place row ls ++ rest)) = none := by
  have hword : forall w, "import" ≠ w -> t.isWord w = false := fun w hw => Token.isWord_of_isWord ht hw
  have hopens : forall w, "import" ≠ w -> forall fits ts,
      (opensDeclaration w fits).run (t :: ts) = some (false, t :: ts) :=
    fun w hw => run_opensDeclaration_none (hword w hw)
  have hat : t.isMark '@' = false := by
    refine Token.isMark_of_kind ?_ '@'
    rw [Token.kind_of_isWord ht]
    decide
  have halias : (textStatement do
      let _ ← advance
      importAlias).run (t :: (Lexeme.place row ls ++ rest)) = none := by
    have hadvance := @run_advance t (Lexeme.place row ls ++ rest) (Token.ne_endOfSource_of_isWord ht)
    simp only [textStatement, textOf, withText, StateT.run_map, StateT.run_bind, StateT.run_get,
      Option.pure_def, Option.bind_eq_bind, Option.bind_some, hadvance, run_importAlias_none h row rest,
      Option.bind_none]
    rfl
  cases fuel with
  | zero => rfl
  | succ fuel =>
      simp only [declaration, StateT.run_bind, run_peek, run_second, ht, hat,
        hword "interface" (by decide), hopens "type" (by decide), hword "const" (by decide),
        hopens "let" (by decide), hword "var" (by decide), hword "enum" (by decide),
        hword "function" (by decide), hword "async" (by decide), hword "class" (by decide),
        hword "abstract" (by decide), hopens "namespace" (by decide), hopens "module" (by decide),
        Bool.or_self, Bool.false_and, Bool.false_eq_true, if_true, if_false, Option.bind_eq_bind,
        Option.bind_some, halias]

theorem run_otherStatement_import (h : IsImport ls) (ht : t.isWord "import" = true) (row : Nat)
    (rest : List Token) :
    (otherStatement g).run (t :: (Lexeme.place row ls ++ rest)) = some ((), rest) := by
  have hword : forall w, "import" ≠ w -> t.isWord w = false := fun w hw => Token.isWord_of_isWord ht hw
  have hmark : forall c, t.isMark c = false := by
    refine Token.isMark_of_kind ?_
    rw [Token.kind_of_isWord ht]
    decide
  have himport : (importStatement g <|> expressionStatement g).run
      (t :: (Lexeme.place row ls ++ rest)) = some ((), rest) :=
    run_orElse_some (run_importStatement h ht row rest)
  simp only [otherStatement, StateT.run_bind, run_peek, run_second, ht, hmark,
    hword "if" (by decide), hword "for" (by decide), hword "while" (by decide),
    hword "with" (by decide), hword "do" (by decide), hword "switch" (by decide),
    hword "try" (by decide), hword "return" (by decide), hword "throw" (by decide),
    hword "break" (by decide), hword "continue" (by decide), hword "debugger" (by decide),
    Bool.or_self, Bool.false_eq_true, if_true, if_false, Option.bind_eq_bind, Option.bind_some]
  exact himport

theorem run_statement_import (h : IsImport ls) (gap : Gap) (row : Nat) (rest : List Token) :
    (statement g).run (Lexeme.place row (.keyword gap "import" :: ls) ++ rest) =
      some (.text ("import".toList ++ Lexeme.source ls), rest) := by
  obtain ⟨t, ht⟩ : exists t, t = (Lexeme.keyword gap "import").token row := ⟨_, rfl⟩
  have hword : t.isWord "import" = true := by simp [ht]
  have hat : t.isMark '@' = false := by simp [ht]
  have hdeclaration := @run_declaration_import_none g ls t h hword
    (row + Lexeme.rows [.keyword gap "import"]) rest
  have hother := @run_otherStatement_import g ls t h hword
    (row + Lexeme.rows [.keyword gap "import"]) rest
  have htext : (textOf (otherStatement g)).run (Lexeme.place row (.keyword gap "import" :: ls) ++ rest) =
      some ((Lexeme.keyword gap "import").text ++ Lexeme.source ls, rest) := by
    refine run_textOf_place ?_
    rw [Lexeme.place_cons, List.cons_append, ← ht]
    exact hother
  have hopens := @run_opensDeclaration_none t "export" (Token.isWord_of_isWord hword (by decide))
  rw [Lexeme.keyword_text, Lexeme.place_cons, List.cons_append, ← ht] at htext
  rw [Lexeme.place_cons, List.cons_append, ← ht]
  refine (run_bind_some (hopens _ _)).trans ((run_bind_some (run_atMark '@')).trans ?_)
  rw [hat]
  refine (run_bind_some rfl).trans ((run_orElse_none (hdeclaration _)).trans ?_)
  exact run_map_some htext

theorem export_opens (h : IsExport ls) (row : Nat) (rest : List Token) :
    exists u us, Lexeme.place row ls ++ rest = u :: us /\ u.isMark '.' = false /\
      u.isMark ':' = false /\ Context.expressionEnding.endsBefore (u :: us) = false := by
  have hmark : forall {b c}, isRowBlank b = true -> c ∈ ['\x7b', '*'] -> forall us,
      ((Lexeme.mark b c).token row).isMark '.' = false /\
      ((Lexeme.mark b c).token row).isMark ':' = false /\
      Context.expressionEnding.endsBefore ((Lexeme.mark b c).token row :: us) = false := by
    intro b c hb hc us
    have hmarks : forall c, c ∈ ['\x7b', '*'] -> c ≠ '.' /\ c ≠ ':' /\ c ≠ '\x7d' :=
      forall_mem_of_all (by decide)
    obtain ⟨hpoint, hcolon, hbrace⟩ := hmarks c hc
    refine ⟨by simpa using hpoint, by simpa using hcolon, ?_⟩
    exact endsBefore_mark .expressionEnding hb hbrace row us
  cases h with
  | names hb hnames hend =>
      obtain ⟨more, rfl⟩ := names_eq_cons hnames
      exact ⟨_, _, rfl, hmark hb (by decide) _⟩
  | types hb hnames hend =>
      refine ⟨_, _, rfl, by simp, by simp, ?_⟩
      exact endsBefore_token .expressionEnding Lexeme.keyword_gap hb (by simp) (by simp) _
  | all hb hsource => exact ⟨_, _, rfl, hmark hb (by decide) _⟩
  | allAs b' b'' name hb hsource => exact ⟨_, _, rfl, hmark hb (by decide) _⟩

theorem run_statement_export (h : IsExport ls) (gap : Gap) (row : Nat) (rest : List Token) :
    (statement g).run (Lexeme.place row (.keyword gap "export" :: ls) ++ rest) =
      some (.text ("export".toList ++ Lexeme.source ls), rest) := by
  obtain ⟨t, ht⟩ : exists t, t = (Lexeme.keyword gap "export").token row := ⟨_, rfl⟩
  have hword : t.isWord "export" = true := by simp [ht]
  have hwritten : Token.textUpTo (Lexeme.place row (.keyword gap "export" :: ls) ++ rest) rest =
      "export".toList ++ Lexeme.source ls := by
    rw [Token.textUpTo_append, Lexeme.written_place, Lexeme.keyword_text]
  have hexported := @run_exported_module g ls h false (row + Lexeme.rows [.keyword gap "export"]) rest
  obtain ⟨u, us, hus, hpoint, hcolon, hends⟩ := export_opens h
    (row + Lexeme.rows [.keyword gap "export"]) rest
  rw [Lexeme.place_cons, List.cons_append, ← ht, hus] at hwritten ⊢
  rw [hus] at hexported
  have hfits : (!u.isMark '.' && !u.isMark ':') = true := by
    rw [hpoint, hcolon]
    rfl
  have hopens := @run_opensDeclaration_of u (fun n => !n.isMark '.' && !n.isMark ':') hfits us hends t
    "export"
  have hdecorators : (many (decorator g)).run (t :: u :: us) = some ([], t :: u :: us) :=
    run_decorators (Token.kind_of_isWord hword)
  refine (run_bind_some hopens).trans ?_
  rw [hword, if_pos rfl]
  refine (run_bind_some rfl).trans ((run_bind_some hdecorators).trans ?_)
  refine (run_bind_some (run_word hword)).trans ((run_bind_some hexported).trans ?_)
  rw [← hwritten]
  rfl

theorem run_statement_module (h : Module.IsStatement ls) (gap : Gap) (row : Nat) (rest : List Token) :
    (statement g).run (Lexeme.place row (Lexeme.withGap gap ls) ++ rest) =
      some (.text (Lexeme.source ls), rest) := by
  cases h with
  | imports h => exact run_statement_import h gap row rest
  | exports h => exact run_statement_export h gap row rest

end Parser

end TypeScript
end SchemaTypes
