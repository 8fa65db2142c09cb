import SchemaTypes.Proofs.TypeScript.Copying.Statements
import SchemaTypes.Proofs.TypeScript.Requoting

/-!
# Printing without carriage returns

What printing adds to the texts of a tree are words, marks and spaces, so a tree that was
read from a text without carriage returns is printed without them.
-/

namespace SchemaTypes

theorem Text.cr_of_mem_joinWith {separator : List Char} {ss : List (List Char)}
    (hseparator : '\r' ∉ separator) (h : '\r' ∈ joinWith separator ss) : exists s, s ∈ ss /\ '\r' ∈ s :=
  (of_mem_joinWith h).resolve_left hseparator

theorem Text.cr_of_mem_collapse {s : List Char} (h : '\r' ∈ collapse s) : '\r' ∈ s :=
  ((of_mem_collapse h).resolve_left (by decide)).left

namespace TypeScript

theorem Quoted.cr_of_mem_requote {s : List Char} (h : '\r' ∈ requote s) : '\r' ∈ s := by
  unfold requote at h
  split at h
  · rename_i c rest
    rcases List.mem_append.mp h with h | h
    · rcases List.mem_cons.mp h with h | h
      · cases h
      · have hinside := (mem_requoteInside h).resolve_right (by decide)
        exact List.mem_cons_of_mem _ (List.dropLast_subset _ hinside)
    · simp at h
  · exact h

theorem PropertyName.cr_of_mem_print {n : PropertyName} (h : '\r' ∈ n.print) : '\r' ∈ n.text := by
  unfold print at h
  split at h
  · exact Quoted.cr_of_mem_requote h
  · exact h

/-!
## Types
-/

namespace TypeTree

mutual

theorem cr_of_mem_print : forall {t : TypeTree}, '\r' ∈ t.print -> '\r' ∈ t.chars
  | union members, h => by
      obtain ⟨s, hs, hmem⟩ := Text.cr_of_mem_joinWith (by simp) h
      exact cr_of_mem_printAll hs hmem
  | intersection parts, h => by
      obtain ⟨s, hs, hmem⟩ := Text.cr_of_mem_joinWith (by simp) h
      exact cr_of_mem_printAll hs hmem
  | array element, h => by
      rw [print_array] at h
      exact cr_of_mem_print (t := element) (by simpa using h)
  | parenthesized inner, h => by
      rw [print_parenthesized] at h
      exact cr_of_mem_print (t := inner) (by simpa using h)
  | lookup object index, h => by
      have hmem : '\r' ∈ object.print \/ '\r' ∈ index.print := by simpa using h
      exact List.mem_append.mpr (hmem.imp cr_of_mem_print cr_of_mem_print)
  | keyOf operand, h => by
      rw [print_keyOf] at h
      exact cr_of_mem_print (t := operand) (by simpa using h)
  | typeOf query, h => by
      have hmem : '\r' ∈ Text.collapse query := by simpa using h
      exact Text.cr_of_mem_collapse hmem
  | string literal, h => Quoted.cr_of_mem_requote h
  | generic name arguments, h => by
      rw [print_generic] at h
      have hmem : '\r' ∈ name \/ '\r' ∈ Text.joinWith ", ".toList (printAll arguments) := by
        simpa using h
      refine List.mem_append.mpr (hmem.imp_right fun hmem => ?_)
      obtain ⟨s, hs, hmem⟩ := Text.cr_of_mem_joinWith (by simp) hmem
      exact cr_of_mem_printAll hs hmem
  | constant, h => by simp at h
  | text s, h => Text.cr_of_mem_collapse h

theorem cr_of_mem_printAll :
    forall {ts : List TypeTree} {s : List Char}, s ∈ printAll ts -> '\r' ∈ s -> '\r' ∈ charsAll ts
  | [], s, hs, _ => by cases hs
  | t :: rest, s, hs, h => by
      rw [printAll_cons] at hs
      rw [charsAll, List.mem_append]
      split at hs
      · exact .inr (cr_of_mem_printAll hs h)
      · rcases List.mem_cons.mp hs with rfl | hs
        · exact .inl (cr_of_mem_print h)
        · exact .inr (cr_of_mem_printAll hs h)

end

end TypeTree

/-!
## Expressions
-/

mutual

theorem Expression.cr_of_mem_print : forall {e : Expression}, '\r' ∈ e.print -> '\r' ∈ e.chars
  | .object entries, h => by
      rw [Expression.print_object] at h
      split at h
      · simp at h
      · have hmem : '\r' ∈ Text.joinWith ", ".toList (Entry.printAll entries) := by simpa using h
        obtain ⟨s, hs, hmem⟩ := Text.cr_of_mem_joinWith (by simp) hmem
        exact Entry.cr_of_mem_printAll hs hmem
  | .array elements, h => by
      rw [Expression.print_array] at h
      have hmem : '\r' ∈ Text.joinWith ", ".toList (Expression.printAll elements) := by simpa using h
      obtain ⟨s, hs, hmem⟩ := Text.cr_of_mem_joinWith (by simp) hmem
      exact Expression.cr_of_mem_printAll hs hmem
  | .string literal, h => Quoted.cr_of_mem_requote h
  | .parenthesized inner declared, h => by
      rw [Expression.print_parenthesized] at h
      have hmem : '\r' ∈ inner.print := by simpa using h
      exact List.mem_append_left _ (Expression.cr_of_mem_print hmem)
  | .ascription value target, h => by
      have hmem : '\r' ∈ value.print \/ '\r' ∈ target.print := by simpa using h
      exact List.mem_append.mpr (hmem.imp Expression.cr_of_mem_print TypeTree.cr_of_mem_print)
  | .hole, h => by cases h
  | .text s, h => Text.of_mem_trim h

theorem Expression.cr_of_mem_printAll : forall {es : List Expression} {s : List Char},
    s ∈ Expression.printAll es -> '\r' ∈ s -> '\r' ∈ Expression.charsAll es
  | [], s, hs, _ => by cases hs
  | e :: rest, s, hs, h => by
      rw [Expression.charsAll, List.mem_append]
      by_cases he : e = .hole
      · rw [he] at hs
        exact .inr (Expression.cr_of_mem_printAll hs h)
      · rw [Expression.printAll_cons e rest he] at hs
        rcases List.mem_cons.mp hs with rfl | hs
        · exact .inl (Expression.cr_of_mem_print h)
        · exact .inr (Expression.cr_of_mem_printAll hs h)

theorem Entry.cr_of_mem_print : forall {e : Entry}, '\r' ∈ e.print -> '\r' ∈ e.chars
  | .pair key value, h => by
      have hmem : '\r' ∈ key.print \/ '\r' ∈ value.print := by simpa using h
      exact List.mem_append.mpr (hmem.imp PropertyName.cr_of_mem_print Expression.cr_of_mem_print)
  | .hole, h => by cases h
  | .text s, h => Text.cr_of_mem_collapse h

theorem Entry.cr_of_mem_printAll : forall {es : List Entry} {s : List Char},
    s ∈ Entry.printAll es -> '\r' ∈ s -> '\r' ∈ Entry.charsAll es
  | [], s, hs, _ => by cases hs
  | e :: rest, s, hs, h => by
      rw [Entry.charsAll, List.mem_append]
      by_cases he : e = .hole
      · rw [he] at hs
        exact .inr (Entry.cr_of_mem_printAll hs h)
      · rw [Entry.printAll_cons e rest he] at hs
        rcases List.mem_cons.mp hs with rfl | hs
        · exact .inl (Entry.cr_of_mem_print h)
        · exact .inr (Entry.cr_of_mem_printAll hs h)

end

/-!
## Lines

Lines are told apart from each other by nothing but line feeds and spaces.
-/

namespace Line

def texts (ls : List Line) : List Char :=
  ls.flatMap text

@[simp] theorem texts_nil : texts [] = [] :=
  rfl

@[simp] theorem texts_cons (l : Line) (ls : List Line) : texts (l :: ls) = l.text ++ texts ls :=
  rfl

@[simp] theorem texts_append (ls ms : List Line) : texts (ls ++ ms) = texts ls ++ texts ms :=
  List.flatMap_append

@[simp] theorem texts_glue (ls ms : List Line) : texts (glue ls ms) = texts ls ++ texts ms := by
  cases ms with
  | nil => cases ls <;> simp [glue]
  | cons m ms =>
      induction ls with
      | nil => rfl
      | cons l ls ih =>
          cases ls with
          | nil => simp [glue]
          | cons n ns =>
              rw [glue_cons_cons l n ns (List.cons_ne_nil m ms), texts_cons, ih]
              simp

@[simp] theorem texts_add (ls : List Line) (s : List Char) : texts (append ls s) = texts ls ++ s := by
  simp [append]

@[simp] theorem texts_before (depth : Nat) (s : List Char) (ls : List Line) :
    texts (before depth s ls) = s ++ texts ls := by
  simp [before]

theorem texts_glueWith (separator : List Char) (lss : List (List Line)) :
    texts (glueWith separator lss) = Text.joinWith separator (lss.map texts) := by
  induction lss with
  | nil => rfl
  | cons ls more ih =>
      cases more with
      | nil => rfl
      | cons ms more =>
          rw [glueWith, texts_glue, texts_add, ih]
          · rfl
          · exact nofun

theorem cr_of_mem_renderAll {tabWidth : Nat} {ls : List Line} (h : '\r' ∈ renderAll tabWidth ls) :
    '\r' ∈ texts ls := by
  obtain ⟨l, hl, h⟩ := List.mem_flatMap.mp h
  refine List.mem_flatMap.mpr ⟨l, hl, ?_⟩
  rw [render] at h
  simpa [List.mem_replicate] using h

end Line

theorem Expression.cr_of_mem_printBroken (depth : Nat) : forall {e : Expression},
    '\r' ∈ Line.texts (e.printBroken depth) -> '\r' ∈ e.chars
  | .object entries, h => by
      rw [printBroken] at h
      split at h
      · simp at h
      · have hlines : '\r' ∈ Line.texts
            ((Entry.printAll entries).map fun s => ⟨depth + 1, s ++ [',']⟩) := by simpa using h
        obtain ⟨l, hl, hmem⟩ := List.mem_flatMap.mp hlines
        obtain ⟨s, hs, rfl⟩ := List.mem_map.mp hl
        exact Entry.cr_of_mem_printAll hs (by simpa using hmem)
  | .parenthesized inner declared, h => by
      have hmem : '\r' ∈ Line.texts (inner.printBroken depth) := by simpa [printBroken] using h
      exact List.mem_append_left _ (Expression.cr_of_mem_printBroken depth hmem)
  | .ascription value target, h => by
      have hmem : '\r' ∈ Line.texts (value.printBroken depth) \/ '\r' ∈ target.print := by
        simpa [printBroken] using h
      exact List.mem_append.mpr
        (hmem.imp (Expression.cr_of_mem_printBroken depth) TypeTree.cr_of_mem_print)
  | .array elements, h => Expression.cr_of_mem_print (by simpa [printBroken] using h)
  | .string literal, h => Expression.cr_of_mem_print (by simpa [printBroken] using h)
  | .hole, h => Expression.cr_of_mem_print (by simpa [printBroken] using h)
  | .text s, h => Expression.cr_of_mem_print (by simpa [printBroken] using h)

/-!
## Items
-/

theorem Item.cr_of_mem_layout {α : Type} [HasTexts α] {depth : Nat} {print : α -> List Line}
    (hprint : forall a, '\r' ∈ Line.texts (print a) -> '\r' ∈ HasTexts.chars a) {items : List (Item α)}
    (h : '\r' ∈ Line.texts (layout depth print items)) : '\r' ∈ HasTexts.chars items := by
  have hset : forall (item : Item α) (last? : Option Nat) (lines : List Line),
      '\r' ∈ Line.texts ((item.piece last?).set depth print lines) ->
      '\r' ∈ Line.texts lines \/ '\r' ∈ HasTexts.chars item := by
    have hblank : forall apart : Bool, Line.texts (if apart then [Line.blank] else []) = [] := by
      intro apart
      cases apart <;> rfl
    intro item last? lines hmem
    cases item with
    | comment c =>
        have hcomment : '\r' ∈ Line.texts lines \/ '\r' ∈ Text.trim c.text := by
          simp only [piece] at hmem
          split at hmem <;> simpa [Piece.set, hblank] using hmem
        exact hcomment.imp_right Text.of_mem_trim
    | node row endRow a =>
        have hnode : '\r' ∈ Line.texts lines \/ '\r' ∈ Line.texts (print a) := by
          simpa [piece, Piece.set, hblank] using hmem
        exact hnode.imp_right (hprint a)
  have hfrom : forall (items : List (Item α)) (last? : Option Nat) (lines : List Line),
      '\r' ∈ Line.texts (layoutFrom depth print last? lines items) ->
      '\r' ∈ Line.texts lines \/ '\r' ∈ HasTexts.chars items := by
    intro items
    induction items with
    | nil => exact fun _ _ hmem => .inl hmem
    | cons item rest ih =>
        intro last? lines hmem
        rw [layoutFrom_cons] at hmem
        rcases ih _ _ hmem with hlines | hrest
        · exact (hset item last? lines hlines).imp_right (List.mem_append_left _)
        · exact .inr (List.mem_append_right _ hrest)
  exact (hfrom items none [] h).resolve_left List.not_mem_nil

theorem Member.cr_of_mem_print {m : Member} (h : '\r' ∈ m.print) : '\r' ∈ HasTexts.chars m := by
  cases m with
  | property pieces =>
      obtain ⟨piece, hpiece, h⟩ := List.mem_flatMap.mp h
      refine List.mem_flatMap.mpr ⟨piece, hpiece, ?_⟩
      cases piece with
      | modifier s =>
          have hmem : '\r' ∈ s := by simpa [MemberPiece.print] using h
          exact hmem
      | name n => exact PropertyName.cr_of_mem_print h
      | optional => simp [MemberPiece.print] at h
      | declared t => exact TypeTree.cr_of_mem_print (by simpa [MemberPiece.print] using h)
  | text s =>
      have hmem := (List.dropWhile_suffix _).subset (List.mem_reverse.mp h)
      exact Text.cr_of_mem_collapse (List.mem_reverse.mp hmem)

/-!
## Statements
-/

namespace Declarator

variable {d : Declarator}

theorem cr_of_mem_head (h : '\r' ∈ d.head) : '\r' ∈ HasTexts.chars d := by
  obtain ⟨name, definite, declared, value⟩ := d
  rcases List.mem_append.mp h with hname | htype
  · have hmem := Text.cr_of_mem_collapse hname
    simp [HasTexts.chars, hmem]
  · cases declared with
    | none => cases htype
    | some t =>
        have hmem := TypeTree.cr_of_mem_print (t := t) (by simpa using htype)
        simp [HasTexts.chars, hmem]

theorem cr_of_mem_print (h : '\r' ∈ d.print) : '\r' ∈ HasTexts.chars d := by
  rcases List.mem_append.mp h with hhead | hvalue
  · exact cr_of_mem_head hhead
  · obtain ⟨name, definite, declared, value⟩ := d
    cases value with
    | none => cases hvalue
    | some e =>
        have hmem := Expression.cr_of_mem_print (e := e) (by simpa using hvalue)
        simp [HasTexts.chars, hmem]

theorem cr_of_mem_printBroken {depth : Nat} (h : '\r' ∈ Line.texts (d.printBroken depth)) :
    '\r' ∈ HasTexts.chars d := by
  unfold printBroken at h
  split at h
  · rename_i e hvalue
    have hmem : '\r' ∈ d.head \/ '\r' ∈ Line.texts (e.printBroken depth) := by simpa using h
    rcases hmem with hhead | hvalue'
    · exact cr_of_mem_head hhead
    · have hmem := Expression.cr_of_mem_printBroken depth hvalue'
      simp [HasTexts.chars, hvalue, hmem]
  · exact cr_of_mem_head (by simpa using h)

end Declarator

namespace Statement

theorem cr_not_mem_lead (exported : Option Export) : '\r' ∉ lead exported := by
  unfold lead
  split <;> simp

theorem cr_of_mem_aliasHeader {exported : Option Export} {name parameters : List Char}
    (h : '\r' ∈ aliasHeader exported name parameters) : '\r' ∈ name \/ '\r' ∈ parameters := by
  have hmem : '\r' ∈ name \/ '\r' ∈ Text.collapse parameters := by
    simpa [aliasHeader, cr_not_mem_lead] using h
  exact hmem.imp_right Text.cr_of_mem_collapse

theorem cr_of_mem_lexicalHeader {exported : Option Export} {keyword : List Char}
    (h : '\r' ∈ lexicalHeader exported keyword) : '\r' ∈ keyword := by
  simpa [lexicalHeader, cr_not_mem_lead] using h

theorem cr_of_mem_interface {printWidth : Nat} {exported : Option Export}
    {name parameters : List Char} {parents : Option (List Char)} {exact : Bool}
    {members : List (Item Member)}
    (h : '\r' ∈ Line.texts (print printWidth (interface exported name parameters parents exact members))) :
    '\r' ∈ HasTexts.chars (interface exported name parameters parents exact members) := by
  have hparents : '\r' ∈ parents.elim [] (' ' :: Text.collapse ·) -> exists s, parents = some s /\ '\r' ∈ s := by
    intro hmem
    cases parents with
    | none => cases hmem
    | some s => exact ⟨s, rfl, Text.cr_of_mem_collapse (by simpa using hmem)⟩
  have hmembers : '\r' ∈ Line.texts (Item.layout 1 (fun m => [⟨1, m.print ++ [';']⟩]) members) ->
      '\r' ∈ HasTexts.chars members :=
    Item.cr_of_mem_layout fun m hmem => Member.cr_of_mem_print (by simpa using hmem)
  have hall : '\r' ∈ name \/ '\r' ∈ Text.collapse parameters \/
      '\r' ∈ parents.elim [] (' ' :: Text.collapse ·) \/
      '\r' ∈ Line.texts (Item.layout 1 (fun m => [⟨1, m.print ++ [';']⟩]) members) := by
    cases members with
    | nil => simpa [print, cr_not_mem_lead, or_assoc, Item.layout, Item.layoutFrom] using h
    | cons first rest => simpa [print, cr_not_mem_lead, or_assoc] using h
  rcases hall with hname | hparameters | hmem | hmem
  · simp [HasTexts.chars, hname]
  · simp [HasTexts.chars, Text.cr_of_mem_collapse hparameters]
  · obtain ⟨s, rfl, hs⟩ := hparents hmem
    simp [HasTexts.chars, hs]
  · exact List.mem_append_right _ (List.mem_append_right _ (List.mem_append_right _ (hmembers hmem)))

theorem cr_of_mem_typeAlias {printWidth : Nat} {exported : Option Export}
    {name parameters : List Char} {value : TypeTree}
    (h : '\r' ∈ Line.texts (print printWidth (typeAlias exported name parameters value))) :
    '\r' ∈ HasTexts.chars (typeAlias exported name parameters value) := by
  have hflat : '\r' ∈ flatAlias exported name parameters value ->
      '\r' ∈ aliasHeader exported name parameters \/ '\r' ∈ value.chars := by
    intro hmem
    have hparts : '\r' ∈ aliasHeader exported name parameters \/ '\r' ∈ value.print := by
      simpa [flatAlias] using hmem
    exact hparts.imp_right TypeTree.cr_of_mem_print
  have hall : '\r' ∈ aliasHeader exported name parameters \/ '\r' ∈ value.chars := by
    cases value with
    | union members =>
        rw [print] at h
        split at h
        · exact hflat (by simpa using h)
        · have hlines : '\r' ∈ aliasHeader exported name parameters \/
              '\r' ∈ Line.texts ((TypeTree.printAll members).map fun s => ⟨1, "| ".toList ++ s⟩) := by
            simpa using h
          refine hlines.imp_right fun hmem => ?_
          obtain ⟨l, hl, hmem⟩ := List.mem_flatMap.mp hmem
          obtain ⟨s, hs, rfl⟩ := List.mem_map.mp hl
          exact TypeTree.cr_of_mem_printAll hs (by simpa using hmem)
    | _ => exact hflat (by simpa [print] using h)
  rcases hall with hheader | hvalue
  · rcases cr_of_mem_aliasHeader hheader with hname | hparameters
    · simp [HasTexts.chars, hname]
    · simp [HasTexts.chars, hparameters]
  · simp [HasTexts.chars, hvalue]

theorem cr_of_mem_lexical {printWidth : Nat} {exported : Option Export} {keyword : List Char}
    {declarators : List Declarator}
    (h : '\r' ∈ Line.texts (print printWidth (lexical exported keyword declarators))) :
    '\r' ∈ HasTexts.chars (lexical exported keyword declarators) := by
  have hone : forall d, d ∈ declarators -> '\r' ∈ HasTexts.chars d ->
      '\r' ∈ HasTexts.chars (lexical exported keyword declarators) := fun d hd hmem =>
    List.mem_append_right _ (List.mem_flatMap.mpr ⟨d, hd, hmem⟩)
  have hkeyword : '\r' ∈ lexicalHeader exported keyword ->
      '\r' ∈ HasTexts.chars (lexical exported keyword declarators) := by
    intro hmem
    simp [HasTexts.chars, cr_of_mem_lexicalHeader hmem]
  rw [print] at h
  split at h
  · have hparts : '\r' ∈ lexicalHeader exported keyword \/
        '\r' ∈ Text.joinWith ", ".toList (declarators.map Declarator.print) := by
      simpa [flatLexical] using h
    rcases hparts with hheader | hmem
    · exact hkeyword hheader
    · obtain ⟨_, hprinted, hmem⟩ := Text.cr_of_mem_joinWith (by simp) hmem
      obtain ⟨d, hd, rfl⟩ := List.mem_map.mp hprinted
      exact hone d hd (Declarator.cr_of_mem_print hmem)
  · have hparts : '\r' ∈ lexicalHeader exported keyword \/
        '\r' ∈ Line.texts (Line.glueWith ", ".toList (declarators.map (Declarator.printBroken 0))) := by
      simpa using h
    rcases hparts with hheader | hmem
    · exact hkeyword hheader
    · rw [Line.texts_glueWith] at hmem
      obtain ⟨_, htexts, hmem⟩ := Text.cr_of_mem_joinWith (by simp) hmem
      obtain ⟨_, hlines, rfl⟩ := List.mem_map.mp htexts
      obtain ⟨d, hd, rfl⟩ := List.mem_map.mp hlines
      exact hone d hd (Declarator.cr_of_mem_printBroken hmem)

theorem cr_of_mem_print {printWidth : Nat} {s : Statement}
    (h : '\r' ∈ Line.texts (s.print printWidth)) : '\r' ∈ HasTexts.chars s := by
  cases s with
  | interface => exact cr_of_mem_interface h
  | typeAlias => exact cr_of_mem_typeAlias h
  | lexical => exact cr_of_mem_lexical h
  | text s =>
      have hmem : '\r' ∈ Text.trim s := by simpa [print] using h
      exact Text.of_mem_trim hmem

end Statement

/-- A program of a text without carriage returns is printed without them. -/
theorem Program.cr_not_mem_renderAll {source : List Char} {program : Program} (hsource : '\r' ∉ source)
    (h : parse? source = some program) (printWidth tabWidth : Nat) :
    '\r' ∉ Line.renderAll tabWidth (program.print printWidth) := by
  intro hmem
  have hplain : forall c, c ∈ source -> c ≠ '\r' := fun c hc heq => hsource (heq ▸ hc)
  have hprogram := Item.cr_of_mem_layout (fun _ => Statement.cr_of_mem_print)
    (Line.cr_of_mem_renderAll hmem)
  exact (holds_of_parse h hplain).chars '\r' hprogram rfl

end TypeScript
end SchemaTypes
