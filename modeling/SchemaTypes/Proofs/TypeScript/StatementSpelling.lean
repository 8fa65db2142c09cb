import SchemaTypes.Proofs.TypeScript.MemberReading
import SchemaTypes.Proofs.TypeScript.ModuleReading

/-!
# Spelling of statements

The lexemes of interfaces, aliases and declarations, set on one line or on several as
their width demands, and the canonical statements, which their lexemes spell without
loss.  Imports and exports of names are among them, though they are kept as text.
-/

namespace SchemaTypes
namespace TypeScript

/-!
## Lines at the left margin
-/

namespace Line

variable {tabWidth : Nat} {ls ms : List Line} {s t : List Char}

/-- The lines start at the left margin and set a text. -/
def Sets (tabWidth : Nat) (ls : List Line) (s : List Char) : Prop :=
  exists l more, ls = l :: more /\ l.depth = 0 /\ s = l.text ++ behind tabWidth more

theorem Sets.behind_eq (h : Sets tabWidth ls s) : behind tabWidth ls = margin tabWidth 0 ++ s := by
  obtain ⟨l, more, rfl, hdepth, rfl⟩ := h
  rw [behind_cons, hdepth, List.append_assoc]

theorem sets_singleton (tabWidth : Nat) (s : List Char) : Sets tabWidth [⟨0, s⟩] s :=
  ⟨⟨0, s⟩, [], rfl, rfl, by simp⟩

theorem glue_eq_cons (l : Line) (more : List Line) (m : Line) (ms : List Line) :
    exists l' more', glue (l :: more) (m :: ms) = l' :: more' /\ l'.depth = l.depth := by
  cases more with
  | nil => exact ⟨_, _, rfl, rfl⟩
  | cons n ns => exact ⟨_, _, glue_cons_cons l n ns (List.cons_ne_nil m ms), rfl⟩

theorem Sets.glue (hls : Sets tabWidth ls s) (hms : Sets tabWidth ms t) :
    Sets tabWidth (glue ls ms) (s ++ t) := by
  obtain ⟨l, more, rfl, hl, rfl⟩ := hls
  obtain ⟨m, ms, rfl, -, rfl⟩ := hms
  obtain ⟨n, ns, hglue, hn⟩ := glue_eq_cons l more m ms
  have hbehind := behind_glue tabWidth (List.cons_ne_nil l more) m ms
  rw [hglue, behind_cons, behind_cons, hn] at hbehind
  simp only [List.append_assoc] at hbehind
  refine ⟨n, ns, hglue, hn.trans hl, ?_⟩
  rw [List.append_assoc]
  exact (List.append_cancel_left hbehind).symm

theorem Sets.append (h : Sets tabWidth ls s) (t : List Char) :
    Sets tabWidth (append ls t) (s ++ t) :=
  h.glue (sets_singleton tabWidth t)

theorem Sets.before (h : Sets tabWidth ls s) (t : List Char) :
    Sets tabWidth (before 0 t ls) (t ++ s) :=
  (sets_singleton tabWidth t).glue h

theorem sets_glueWith {α : Type} {lines : α -> List Line} {text : α -> List Char} {as : List α}
    (has : as ≠ []) (h : forall a, a ∈ as -> Sets tabWidth (lines a) (text a))
    (separator : List Char) :
    Sets tabWidth (glueWith separator (as.map lines)) (Text.joinWith separator (as.map text)) := by
  induction as with
  | nil => exact absurd rfl has
  | cons a rest ih =>
      have hfirst := h a List.mem_cons_self
      cases rest with
      | nil => exact hfirst
      | cons b rest =>
          have hrest := ih (List.cons_ne_nil b rest) fun c hc => h c (List.mem_cons_of_mem a hc)
          exact (hfirst.append separator).glue hrest

end Line

/-!
## Broken objects
-/

/-- Every entry on a line of its own. -/
def Setting.broken (tabWidth : Nat) : Setting :=
  ⟨Line.margin tabWidth 1, Line.margin tabWidth 0, true, Line.isPad_margin tabWidth 1,
    Line.isPad_margin tabWidth 0⟩

namespace Expression

theorem behind_entries (tabWidth : Nat) {parts : List (List Char)} (h : parts ≠ []) :
    Line.behind tabWidth (parts.map fun s => ⟨1, s ++ [',']⟩) =
      Line.margin tabWidth 1 ++ Text.joinWith (',' :: Line.margin tabWidth 1) parts ++ [','] := by
  cases parts with
  | nil => exact absurd rfl h
  | cons s rest =>
      rw [Text.joinWith_cons]
      induction rest generalizing s with
      | nil => simp
      | cons t rest ih =>
          have hrest := ih t (List.cons_ne_nil t rest)
          rw [List.map_cons, Line.behind_cons, hrest]
          simp

theorem sets_printBroken {e : Expression} (h : e.Canonical) (tabWidth : Nat) :
    exists s, Line.Sets tabWidth (e.printBroken 0) s /\
      forall blank, Lexeme.source (e.lexemes (.broken tabWidth) blank) = blank ++ s := by
  have hflat : forall {f : Expression}, f.Canonical -> f.printBroken 0 = [⟨0, f.print⟩] ->
      (forall blank, f.lexemes (.broken tabWidth) blank = f.lexemes .flat blank) ->
      exists s, Line.Sets tabWidth (f.printBroken 0) s /\
        forall blank, Lexeme.source (f.lexemes (.broken tabWidth) blank) = blank ++ s := by
    intro f hf hlines hlexemes
    refine ⟨f.print, ?_, ?_⟩
    · rw [hlines]
      exact Line.sets_singleton tabWidth _
    · intro blank
      rw [hlexemes, source_lexemes hf]
  induction h with
  | @object entries hnamed hvalues _ =>
      cases entries with
      | nil =>
          refine ⟨"\x7b\x7d".toList, Line.sets_singleton tabWidth _, ?_⟩
          intro blank
          simp [lexemes, Entry.lexemesOf, Setting.behind]
      | cons first rest =>
          have hvalue : forall key value, .pair key value ∈ first :: rest ->
              Lexeme.source (value.lexemes .flat [' ']) = ' ' :: value.print :=
            fun key value hmem => source_lexemes (hvalues key value hmem) [' ']
          have hentries := Entry.source_lexemesOf hnamed hvalue (Line.margin tabWidth 1)
          have hne : Entry.printAll (first :: rest) ≠ [] := by
            rw [Entry.printAll_cons first rest
              (Entry.ne_hole_of_isNamed (hnamed first List.mem_cons_self))]
            exact List.cons_ne_nil _ _
          have hbroken : (object (first :: rest)).printBroken 0 =
              ⟨0, ['\x7b']⟩ :: (((Entry.printAll (first :: rest)).map fun s => ⟨1, s ++ [',']⟩) ++
                [⟨0, ['\x7d']⟩]) := by
            cases hparts : Entry.printAll (first :: rest) with
            | nil => exact absurd hparts hne
            | cons s parts => simp [printBroken, hparts]
          refine ⟨_, ⟨_, _, hbroken, rfl, rfl⟩, ?_⟩
          intro blank
          rw [lexemes, List.cons_append, Lexeme.source_cons, Lexeme.source_append,
            Line.behind_append, behind_entries tabWidth hne]
          simp [Setting.broken, Setting.behind, hentries]
  | array h _ => exact hflat (.array h) rfl fun _ => rfl
  | string h hquote => exact hflat (.string h hquote) rfl fun _ => rfl
  | parenthesized _ ih =>
      obtain ⟨s, hsets, hsource⟩ := ih
      refine ⟨_, (hsets.before ['(']).append [')'], ?_⟩
      intro blank
      rw [lexemes, List.cons_append, Lexeme.source_cons, Lexeme.source_append, hsource]
      simp
  | @ascription value target _ htarget ih =>
      obtain ⟨s, hsets, hsource⟩ := ih
      refine ⟨_, hsets.append (" as ".toList ++ target.print), ?_⟩
      intro blank
      rw [lexemes, Lexeme.source_append, Lexeme.source_cons, hsource,
        TypeTree.source_lexemes htarget]
      simp
  | text h => exact hflat (.text h) rfl fun _ => rfl

end Expression

/-!
## Declarators
-/

def isBindingName (s : List Char) : Bool :=
  isWordText s && !("enum" :: Parser.reservedWords).any (s == ·.toList)

theorem isWordText_of_isBindingName {s : List Char} (h : isBindingName s = true) :
    isWordText s = true := by
  rw [isBindingName, Bool.and_eq_true] at h
  exact h.left

namespace Declarator

def tailLexemes (o : Setting) (d : Declarator) : List Lexeme :=
  (d.declared.elim [] fun t => .mark [] ':' :: t.lexemes [' ']) ++
    d.value.elim [] fun e => .mark [' '] '=' :: e.lexemes o [' ']

def lexemes (o : Setting) (d : Declarator) : List Lexeme :=
  .word (.ofBlank [' ']) d.name :: d.tailLexemes o

def lexemesOf (o : Setting) : List Declarator -> List Lexeme
  | [] => []
  | d :: rest => d.lexemes o ++ rest.flatMap fun d => .mark [] ',' :: d.lexemes o

structure Canonical (d : Declarator) : Prop where
  name : isBindingName d.name = true
  definite : d.definite = false
  declared : forall t, d.declared = some t -> t.Canonical /\ t.isConstant = false
  value : forall e, d.value = some e -> e.Canonical

def isCanonical (d : Declarator) : Bool :=
  isBindingName d.name && !d.definite && d.declared.all (fun t => t.isCanonical && !t.isConstant) &&
    d.value.all Expression.isCanonical

theorem canonical_of_isCanonical {d : Declarator} (h : d.isCanonical = true) : d.Canonical := by
  simp only [isCanonical, Bool.and_eq_true, Bool.not_eq_true', Option.all_eq_true] at h
  obtain ⟨⟨⟨hname, hdefinite⟩, hdeclared⟩, hvalue⟩ := h
  refine ⟨hname, hdefinite, ?_, ?_⟩
  · intro t ht
    exact ⟨TypeTree.canonical_of_isCanonical t (hdeclared t ht).left, (hdeclared t ht).right⟩
  · intro e he
    exact Expression.canonical_of_isCanonical e (hvalue e he)

section

variable {d : Declarator}

theorem head_eq (h : d.Canonical) :
    d.head = d.name ++ d.declared.elim [] fun t => ": ".toList ++ t.print := by
  rw [head, Text.collapse_visible
    (TypeTree.visible_of_isWordText (isWordText_of_isBindingName h.name))]

theorem source_declared (h : d.Canonical) :
    Lexeme.source (d.declared.elim [] fun t => .mark [] ':' :: t.lexemes [' ']) =
      d.declared.elim [] fun t => ": ".toList ++ t.print := by
  cases hdeclared : d.declared with
  | none => rfl
  | some t =>
      have ht := TypeTree.source_lexemes (h.declared t hdeclared).left [' ']
      simp [ht]

theorem source_lexemes (h : d.Canonical) :
    Lexeme.source (d.lexemes .flat) = ' ' :: d.print := by
  have hvalue : Lexeme.source (d.value.elim [] fun e => .mark [' '] '=' :: e.lexemes .flat [' ']) =
      d.value.elim [] fun e => " = ".toList ++ e.print := by
    cases hvalue : d.value with
    | none => rfl
    | some e =>
        have he := Expression.source_lexemes (h.value e hvalue) [' ']
        simp [he]
  rw [lexemes, Lexeme.source_cons, tailLexemes, Lexeme.source_append, source_declared h, hvalue,
    print, head_eq h]
  simp

theorem source_lexemesOf {ds : List Declarator} (hne : ds ≠ []) {o : Setting}
    {text : Declarator -> List Char}
    (h : forall d, d ∈ ds -> Lexeme.source (d.lexemes o) = ' ' :: text d) :
    Lexeme.source (lexemesOf o ds) = ' ' :: Text.joinWith ", ".toList (ds.map text) := by
  cases ds with
  | nil => exact absurd rfl hne
  | cons d rest =>
      have hrest : forall {es : List Declarator},
          (forall e, e ∈ es -> Lexeme.source (e.lexemes o) = ' ' :: text e) ->
          Lexeme.source (es.flatMap fun e => .mark [] ',' :: e.lexemes o) =
            (es.map text).flatMap (", ".toList ++ ·) := by
        intro es hes
        induction es with
        | nil => rfl
        | cons e es ih =>
            rw [List.flatMap_cons, Lexeme.source_append, Lexeme.source_cons,
              hes e List.mem_cons_self, ih fun f hf => hes f (List.mem_cons_of_mem e hf)]
            simp
      rw [lexemesOf, Lexeme.source_append, h d List.mem_cons_self,
        hrest fun e he => h e (List.mem_cons_of_mem d he), List.map_cons, Text.joinWith_cons,
        List.cons_append]

/-- The lines of a declarator with a broken object set the text of its lexemes. -/
theorem sets_printBroken (h : d.Canonical) (tabWidth : Nat) :
    exists s, Line.Sets tabWidth (d.printBroken 0) s /\
      Lexeme.source (d.lexemes (.broken tabWidth)) = ' ' :: s := by
  have hlexemes : Lexeme.source (d.lexemes (.broken tabWidth)) = ' ' :: (d.head ++
      Lexeme.source (d.value.elim [] fun e => .mark [' '] '=' :: e.lexemes (.broken tabWidth) [' '])) := by
    rw [lexemes, Lexeme.source_cons, tailLexemes, Lexeme.source_append, source_declared h, head_eq h]
    simp
  cases hvalue : d.value with
  | none =>
      refine ⟨d.head, ?_, ?_⟩
      · rw [printBroken, hvalue]
        exact Line.sets_singleton tabWidth _
      · rw [hlexemes, hvalue]
        simp
  | some e =>
      obtain ⟨s, hsets, hsource⟩ := Expression.sets_printBroken (h.value e hvalue) tabWidth
      refine ⟨d.head ++ " = ".toList ++ s, ?_, ?_⟩
      · rw [printBroken, hvalue]
        exact hsets.before _
      · rw [hlexemes, hvalue]
        simp [hsource]

end

end Declarator

/-!
## Statements
-/

/-- A union whose members stand on lines of their own. -/
def TypeTree.IsBarred (t : TypeTree) : Prop :=
  exists first rest, t = union (first :: rest) /\
    forall u, u ∈ first :: rest -> u.isMember = true /\ u.Canonical

def TypeTree.isBarred : TypeTree -> Bool
  | .union members => !members.isEmpty && members.all isMember && allCanonical members
  | _ => false

theorem TypeTree.isBarred_sound {t : TypeTree} (h : t.isBarred = true) : t.IsBarred := by
  cases t with
  | union members =>
      simp only [isBarred, Bool.and_eq_true, List.all_eq_true] at h
      have hall := canonical_of_allCanonical members h.right
      cases members with
      | nil => cases h.left.left
      | cons first rest => exact ⟨first, rest, rfl, fun u hu => ⟨h.left.right u hu, hall u hu⟩⟩
  | _ => cases h

namespace Statement

/-- The statement is too wide for one line and can be set on several. -/
def isBroken (printWidth : Nat) : Statement -> Bool
  | typeAlias exported name parameters value =>
      value.isUnion && printWidth < (flatAlias exported name parameters value).length
  | lexical exported keyword declarators =>
      printWidth < (flatLexical exported keyword declarators).length &&
        (flatLexical exported keyword declarators).contains '\x7b'
  | _ => false

def openingLexemes (g : Gap) (exported : Option Export) (keyword : List Char) : List Lexeme :=
  match exported with
  | some _ => [.keyword g "export", .word (.ofBlank [' ']) keyword]
  | none => [.word g keyword]

def valueLexemes (tabWidth : Nat) (broken : Bool) (value : TypeTree) : List Lexeme :=
  if broken then
    TypeTree.lexemesBehind (.mark (Line.margin tabWidth 1) '|') value.unionMembers
  else value.lexemes [' ']

def setting (tabWidth : Nat) (broken : Bool) : Setting :=
  if broken then .broken tabWidth else .flat

def membersLexemes (tabWidth : Nat) (members : List (Item Member)) : List Lexeme :=
  if members.isEmpty then [.mark [' '] '\x7b', .mark [] '\x7d']
  else Parser.bodyLexemes (Line.margin tabWidth 1) (Item.arrange none members)

/-- The word that opens a statement, `export` apart. -/
def keyword : Statement -> List Char
  | interface _ _ _ _ _ _ => "interface".toList
  | typeAlias _ _ _ _ => "type".toList
  | lexical _ keyword _ => keyword
  | text s => ((Lexeme.ofText s).head?.map Lexeme.text).getD []

def exported : Statement -> Option Export
  | interface exported _ _ _ _ _ => exported
  | typeAlias exported _ _ _ => exported
  | lexical exported _ _ => exported
  | text _ => none

section

variable (e : Option Export) (name parameters word : List Char) (parents : Option (List Char))
  (closed : Bool) (members : List (Item Member)) (value : TypeTree) (ds : List Declarator)

@[simp] theorem keyword_interface :
    keyword (interface e name parameters parents closed members) = "interface".toList :=
  rfl

@[simp] theorem keyword_typeAlias : keyword (typeAlias e name parameters value) = "type".toList :=
  rfl

@[simp] theorem keyword_lexical : keyword (lexical e word ds) = word :=
  rfl

@[simp] theorem exported_interface :
    (interface e name parameters parents closed members).exported = e :=
  rfl

@[simp] theorem exported_typeAlias : (typeAlias e name parameters value).exported = e :=
  rfl

@[simp] theorem exported_lexical : (lexical e word ds).exported = e :=
  rfl

@[simp] theorem exported_text : (text word).exported = none :=
  rfl

theorem keyword_text : (text word).keyword = ((Lexeme.ofText word).head?.map Lexeme.text).getD [] :=
  rfl

end

/-- The lexemes behind the opening word, set as the width of the statement demands. -/
def tailLexemes (printWidth tabWidth : Nat) : Statement -> List Lexeme
  | interface _ name parameters parents _ members =>
      .word (.ofBlank [' ']) name ::
        (Header.lexemes parameters parents ++ membersLexemes tabWidth members)
  | typeAlias exported name parameters value =>
      .word (.ofBlank [' ']) name ::
        (Header.lexemes parameters none ++ .mark [' '] '=' ::
          (valueLexemes tabWidth (isBroken printWidth (typeAlias exported name parameters value)) value ++
            [.mark [] ';']))
  | lexical exported keyword declarators =>
      Declarator.lexemesOf
          (setting tabWidth (isBroken printWidth (lexical exported keyword declarators))) declarators ++
        [.mark [] ';']
  | text s => (Lexeme.ofText s).tail

theorem tailLexemes_text (printWidth tabWidth : Nat) (s : List Char) :
    tailLexemes printWidth tabWidth (text s) = (Lexeme.ofText s).tail :=
  rfl

def lexemes (printWidth tabWidth : Nat) (g : Gap) (s : Statement) : List Lexeme :=
  openingLexemes g s.exported s.keyword ++ s.tailLexemes printWidth tabWidth

def isPlain (exported : Option Export) : Bool :=
  exported.all fun e => !e.decorated && !e.byDefault

/-- The statement has structure and is spelled by its lexemes without loss. -/
inductive Declared (printWidth : Nat) : Statement -> Prop where
  | interface {exported : Option Export} {name parameters : List Char}
      {parents : Option (List Char)} {members : List (Item Member)}
      (hexported : isPlain exported = true) (hname : isIdentifier name = true)
      (hheader : Header.IsKept parameters parents)
      (h : forall m, m ∈ Piece.nodes (Item.arrange none members) -> m.Canonical)
      (hsound : Piece.areSound (Item.arrange none members) = true) :
      Declared printWidth (interface exported name parameters parents false members)
  | typeAlias {exported : Option Export} {name parameters : List Char} {value : TypeTree}
      (hexported : isPlain exported = true) (hname : isIdentifier name = true)
      (hheader : Header.IsKept parameters none)
      (hflat : isBroken printWidth (typeAlias exported name parameters value) = false ->
        value.Canonical)
      (hbroken : isBroken printWidth (typeAlias exported name parameters value) = true ->
        value.IsBarred) :
      Declared printWidth (typeAlias exported name parameters value)
  | lexical {exported : Option Export} {keyword : List Char} {declarators : List Declarator}
      (hexported : isPlain exported = true)
      (hkeyword : keyword = "const".toList \/ keyword = "let".toList) (hne : declarators ≠ [])
      (h : forall d, d ∈ declarators -> d.Canonical) :
      Declared printWidth (lexical exported keyword declarators)

/-- The statement is spelled by its lexemes without loss. -/
inductive Canonical (printWidth : Nat) : Statement -> Prop where
  | declared {s : Statement} (h : s.Declared printWidth) : Canonical printWidth s
  | module {s : List Char} (h : Lexeme.SpelledAs Module.IsStatement s) (htrim : Text.trim s = s) :
      Canonical printWidth (text s)

def isCanonical (printWidth : Nat) : Statement -> Bool
  | interface exported name [] none false members =>
      isPlain exported && isIdentifier name &&
        (Piece.nodes (Item.arrange none members)).all Member.isCanonical &&
        Piece.areSound (Item.arrange none members)
  | typeAlias exported name [] value =>
      isPlain exported && isIdentifier name &&
        if isBroken printWidth (typeAlias exported name [] value) then value.isBarred
        else value.isCanonical
  | lexical exported keyword declarators =>
      isPlain exported && (keyword == "const".toList || keyword == "let".toList) &&
        !declarators.isEmpty && declarators.all Declarator.isCanonical
  | _ => false

theorem canonical_of_isCanonical {printWidth : Nat} {s : Statement}
    (h : s.isCanonical printWidth = true) : s.Canonical printWidth := by
  unfold isCanonical at h
  split at h
  · simp only [Bool.and_eq_true, List.all_eq_true] at h
    obtain ⟨⟨⟨hexported, hname⟩, hmembers⟩, hsound⟩ := h
    exact .declared (.interface hexported hname Header.isKept_nil
      (fun m hm => Member.canonical_of_isCanonical (hmembers m hm)) hsound)
  · simp only [Bool.and_eq_true] at h
    obtain ⟨⟨hexported, hname⟩, hvalue⟩ := h
    refine .declared (.typeAlias hexported hname Header.isKept_nil (fun hflat => ?_)
      (fun hbroken => ?_))
    · rw [hflat] at hvalue
      exact TypeTree.canonical_of_isCanonical _ hvalue
    · rw [hbroken] at hvalue
      exact TypeTree.isBarred_sound hvalue
  · simp only [Bool.and_eq_true, Bool.or_eq_true, beq_iff_eq, Bool.not_eq_true',
      List.isEmpty_eq_false_iff, List.all_eq_true] at h
    obtain ⟨⟨⟨hexported, hkeyword⟩, hne⟩, hdeclarators⟩ := h
    exact .declared (.lexical hexported hkeyword hne fun d hd =>
      Declarator.canonical_of_isCanonical (hdeclarators d hd))
  · cases h

/-!
## Printed statements
-/

section

variable {printWidth tabWidth : Nat}

def written (printWidth tabWidth : Nat) (s : Statement) : List Char :=
  lead s.exported ++ s.keyword ++ Lexeme.source (s.tailLexemes printWidth tabWidth)

theorem source_lexemes (g : Gap) (s : Statement) :
    Lexeme.source (s.lexemes printWidth tabWidth g) = g.text ++ s.written printWidth tabWidth := by
  rw [lexemes, Lexeme.source_append, written]
  cases s.exported <;> simp [openingLexemes, lead]

theorem rows_lexemes (g : Gap) (s : Statement) :
    Lexeme.rows (s.lexemes printWidth tabWidth g) =
      Text.lineFeeds g.text + Text.lineFeeds (s.written printWidth tabWidth) := by
  rw [Lexeme.rows, source_lexemes, Text.lineFeeds_append]

theorem collapse_nil : Text.collapse [] = [] :=
  rfl

theorem behind_bars (tabWidth : Nat) (parts : List (List Char)) :
    Line.behind tabWidth (parts.map fun s => ⟨1, "| ".toList ++ s⟩) =
      parts.flatMap (Line.margin tabWidth 1 ++ "| ".toList ++ ·) := by
  induction parts with
  | nil => rfl
  | cons s rest ih =>
      rw [List.map_cons, Line.behind_cons, ih, List.flatMap_cons]
      simp

theorem source_bodyLexemes {ps : List (Piece Member)}
    (h : forall m, m ∈ Piece.nodes ps -> m.Canonical) (margin : List Char) :
    Lexeme.source (Parser.bodyLexemes margin ps) =
      " \x7b".toList ++ Piece.textOf margin (fun m => m.print ++ [';']) margin ps ++ "\n\x7d".toList := by
  have hspell : forall m, m ∈ Piece.nodes ps -> forall g,
      Lexeme.source (Parser.memberLexemes g m) = g.text ++ (m.print ++ [';']) := by
    intro m hm g
    rw [Parser.memberLexemes, Lexeme.source_append, Member.source_lexemes (h m hm)]
    simp
  have htext : Lexeme.source (Piece.lexemesOf margin Parser.memberLexemes margin [] ps) ++
      Gap.commentsText (Piece.leftOver margin margin [] ps) =
        Piece.textOf margin (fun m => m.print ++ [';']) margin ps :=
    Piece.source_lexemesOf hspell margin []
  rw [Parser.bodyLexemes, List.cons_append, Lexeme.source_cons, Lexeme.source_append, ← htext]
  have hbrace : forall cs, Lexeme.source [.brace ⟨cs, ['\n']⟩] =
      Gap.commentsText cs ++ "\n\x7d".toList := by
    intro cs
    simp [Lexeme.brace, Gap.text]
  rw [hbrace]
  simp

theorem print_interface_ne_nil (exported : Option Export) (name parameters : List Char)
    (parents : Option (List Char)) {members : List (Item Member)} (hmembers : members ≠ []) :
    print printWidth (interface exported name parameters parents false members) =
      ⟨0, lead exported ++ "interface ".toList ++ name ++ Header.text parameters parents ++
        " \x7b".toList⟩ ::
        (Item.layout 1 (fun m => [⟨1, m.print ++ [';']⟩]) members ++ [⟨0, ['\x7d']⟩]) := by
  cases members with
  | nil => exact absurd rfl hmembers
  | cons m ms => simp [print, Header.text]

theorem sets_interface {exported : Option Export} {name parameters : List Char}
    {parents : Option (List Char)} {members : List (Item Member)}
    (hheader : Header.IsKept parameters parents)
    (h : forall m, m ∈ Piece.nodes (Item.arrange none members) -> m.Canonical) :
    Line.Sets tabWidth (print printWidth (interface exported name parameters parents false members))
      (written printWidth tabWidth (interface exported name parameters parents false members)) := by
  have hsource := Header.source_lexemes hheader
  cases members with
  | nil =>
      have hlines : print printWidth (interface exported name parameters parents false []) =
          [⟨0, written printWidth tabWidth (interface exported name parameters parents false [])⟩] := by
        simp [print, written, tailLexemes, membersLexemes, hsource, Header.text]
      rw [hlines]
      exact Line.sets_singleton tabWidth _
  | cons first rest =>
      have hlines : forall m, m ∈ Piece.nodes (Item.arrange none (first :: rest)) ->
          Line.behind tabWidth [⟨1, m.print ++ [';']⟩] =
            Line.margin tabWidth 1 ++ (m.print ++ [';']) := by
        intro m _
        simp
      refine ⟨_, _, print_interface_ne_nil exported name parameters parents
        (List.cons_ne_nil first rest), rfl, ?_⟩
      rw [Line.behind_append, Item.layout_eq,
        Piece.behind_set hlines (Item.opens_arrange (first :: rest))]
      simp [written, tailLexemes, membersLexemes, source_bodyLexemes h, Line.margin, hsource]

theorem sets_flatAlias {exported : Option Export} {name parameters : List Char} {value : TypeTree}
    (hheader : Header.IsKept parameters none)
    (hwide : isBroken printWidth (typeAlias exported name parameters value) = false)
    (h : value.Canonical) :
    Line.Sets tabWidth (print printWidth (typeAlias exported name parameters value))
      (written printWidth tabWidth (typeAlias exported name parameters value)) := by
  have hvalue := TypeTree.source_lexemes h [' ']
  have hsource := Header.source_lexemes hheader
  have hwritten : written printWidth tabWidth (typeAlias exported name parameters value) =
      flatAlias exported name parameters value := by
    rw [written, tailLexemes, hwide]
    simp [valueLexemes, hvalue, flatAlias, aliasHeader, hsource, Header.text]
  have hlines : print printWidth (typeAlias exported name parameters value) =
      [⟨0, flatAlias exported name parameters value⟩] := by
    rw [isBroken, Bool.and_eq_false_iff, decide_eq_false_iff_not, Nat.not_lt] at hwide
    cases value with
    | union members => simp [print, hwide.resolve_left (by simp [TypeTree.isUnion])]
    | _ => rfl
  rw [hlines, hwritten]
  exact Line.sets_singleton tabWidth _

theorem sets_brokenAlias {exported : Option Export} {name parameters : List Char} {value : TypeTree}
    (hheader : Header.IsKept parameters none)
    (hwide : isBroken printWidth (typeAlias exported name parameters value) = true)
    (h : value.IsBarred) :
    Line.Sets tabWidth (print printWidth (typeAlias exported name parameters value))
      (written printWidth tabWidth (typeAlias exported name parameters value)) := by
  obtain ⟨first, rest, rfl, hmembers⟩ := h
  have hsource := Header.source_lexemes hheader
  have hbars := TypeTree.source_lexemesBehind (.mark (Line.margin tabWidth 1) '|')
    (fun t ht => TypeTree.source_lexemes (hmembers t ht).right [' '])
    (fun t ht => TypeTree.not_isConstant_of_isMember (hmembers t ht).left)
  have hwritten : written printWidth tabWidth
      (typeAlias exported name parameters (.union (first :: rest))) =
        aliasHeader exported name parameters ++ " =".toList ++
          (TypeTree.printAll (first :: rest)).flatMap (Line.margin tabWidth 1 ++ "| ".toList ++ ·) ++
          [';'] := by
    rw [written, tailLexemes, hwide]
    simp [valueLexemes, TypeTree.unionMembers, hbars, aliasHeader, hsource, Header.text]
  have hlines : print printWidth (typeAlias exported name parameters (.union (first :: rest))) =
      Line.append (⟨0, aliasHeader exported name parameters ++ " =".toList⟩ ::
        (TypeTree.printAll (first :: rest)).map fun s => ⟨1, "| ".toList ++ s⟩) [';'] := by
    rw [isBroken, Bool.and_eq_true, decide_eq_true_eq] at hwide
    simp [print, Nat.not_le.mpr hwide.right]
  rw [hlines, hwritten, ← behind_bars]
  exact Line.Sets.append ⟨_, _, rfl, rfl, rfl⟩ [';']

theorem sets_flatLexical {exported : Option Export} {keyword : List Char} {ds : List Declarator}
    (hwide : isBroken printWidth (lexical exported keyword ds) = false) (hne : ds ≠ [])
    (h : forall d, d ∈ ds -> d.Canonical) :
    Line.Sets tabWidth (print printWidth (lexical exported keyword ds))
      (written printWidth tabWidth (lexical exported keyword ds)) := by
  have hds := Declarator.source_lexemesOf hne fun d hd => Declarator.source_lexemes (h d hd)
  have hwritten : written printWidth tabWidth (lexical exported keyword ds) =
      flatLexical exported keyword ds := by
    rw [written, tailLexemes, hwide]
    simp [setting, hds, flatLexical, lexicalHeader]
  have hlines : print printWidth (lexical exported keyword ds) =
      [⟨0, flatLexical exported keyword ds⟩] := by
    rw [isBroken, Bool.and_eq_false_iff, decide_eq_false_iff_not, Nat.not_lt] at hwide
    have hfits : (decide ((flatLexical exported keyword ds).length ≤ printWidth) ||
        !(flatLexical exported keyword ds).contains '\x7b') = true := by
      simpa using hwide
    rw [print, if_pos hfits]
  rw [hlines, hwritten]
  exact Line.sets_singleton tabWidth _

theorem sets_brokenLexical {exported : Option Export} {keyword : List Char} {ds : List Declarator}
    (hwide : isBroken printWidth (lexical exported keyword ds) = true) (hne : ds ≠ [])
    (h : forall d, d ∈ ds -> d.Canonical) :
    Line.Sets tabWidth (print printWidth (lexical exported keyword ds))
      (written printWidth tabWidth (lexical exported keyword ds)) := by
  have hsets : forall d, d ∈ ds -> Line.Sets tabWidth (d.printBroken 0)
      (Lexeme.source (d.lexemes (.broken tabWidth))).tail /\
        Lexeme.source (d.lexemes (.broken tabWidth)) =
          ' ' :: (Lexeme.source (d.lexemes (.broken tabWidth))).tail := by
    intro d hd
    obtain ⟨s, hsets, hsource⟩ := Declarator.sets_printBroken (h d hd) tabWidth
    rw [hsource]
    exact ⟨hsets, rfl⟩
  have hds := Declarator.source_lexemesOf hne fun d hd => (hsets d hd).right
  have hwritten : written printWidth tabWidth (lexical exported keyword ds) =
      lexicalHeader exported keyword ++ Text.joinWith ", ".toList
        (ds.map fun d => (Lexeme.source (d.lexemes (.broken tabWidth))).tail) ++ [';'] := by
    rw [written, tailLexemes, hwide]
    simp [setting, hds, lexicalHeader]
  have hlines : print printWidth (lexical exported keyword ds) =
      Line.append (Line.before 0 (lexicalHeader exported keyword)
        (Line.glueWith ", ".toList (ds.map (Declarator.printBroken 0)))) [';'] := by
    rw [isBroken, Bool.and_eq_true, decide_eq_true_eq] at hwide
    have hfits : ¬(decide ((flatLexical exported keyword ds).length ≤ printWidth) ||
        !(flatLexical exported keyword ds).contains '\x7b') = true := by
      simpa using hwide
    rw [print, if_neg hfits]
  rw [hlines, hwritten]
  exact ((Line.sets_glueWith hne (fun d hd => (hsets d hd).left) ", ".toList).before
    (lexicalHeader exported keyword)).append [';']

theorem sets_declared {s : Statement} (h : s.Declared printWidth) (tabWidth : Nat) :
    Line.Sets tabWidth (s.print printWidth) (s.written printWidth tabWidth) := by
  cases h with
  | interface hexported hname hheader h hsound => exact sets_interface hheader h
  | @typeAlias exported name parameters value hexported hname hheader hflat hbroken =>
      cases hwide : isBroken printWidth (typeAlias exported name parameters value) with
      | false => exact sets_flatAlias hheader hwide (hflat hwide)
      | true => exact sets_brokenAlias hheader hwide (hbroken hwide)
  | @lexical exported keyword ds hexported hkeyword hne h =>
      cases hwide : isBroken printWidth (lexical exported keyword ds) with
      | false => exact sets_flatLexical hwide hne h
      | true => exact sets_brokenLexical hwide hne h

/-- A statement that is kept as text is its opening word and what stands behind it. -/
theorem module_eq {s : List Char} (h : Lexeme.SpelledAs Module.IsStatement s)
    (printWidth tabWidth : Nat) :
    exists w, w ∈ ["import", "export"] /\ keyword (text s) = w.toList /\
      Lexeme.ofText s = .keyword (.ofBlank []) w :: tailLexemes printWidth tabWidth (text s) := by
  obtain ⟨w, more, hcons, -, hw⟩ := Module.statement_eq_cons h.ofText.left
  refine ⟨w, hw, ?_, ?_⟩
  · rw [keyword_text, hcons]
    simp
  · rw [tailLexemes_text, hcons, List.tail_cons]

theorem lexemes_module {s : List Char} (h : Lexeme.SpelledAs Module.IsStatement s) (g : Gap) :
    (text s).lexemes printWidth tabWidth g = Lexeme.withGap g (Lexeme.ofText s) := by
  obtain ⟨w, -, hkeyword, hcons⟩ := module_eq h printWidth tabWidth
  rw [hcons, Lexeme.withGap_keyword, lexemes, exported_text, hkeyword]
  rfl

theorem written_module {s : List Char} (h : Lexeme.SpelledAs Module.IsStatement s) :
    (text s).written printWidth tabWidth = s := by
  obtain ⟨-, -, hsource⟩ := h.ofText
  obtain ⟨w, -, hkeyword, hcons⟩ := module_eq h printWidth tabWidth
  rw [hcons] at hsource
  rw [written, exported_text, hkeyword]
  simpa [lead] using hsource

theorem sets_print {s : Statement} (h : s.Canonical printWidth) (tabWidth : Nat) :
    Line.Sets tabWidth (s.print printWidth) (s.written printWidth tabWidth) := by
  cases h with
  | declared h => exact sets_declared h tabWidth
  | module h htrim =>
      rw [written_module h, print, htrim]
      exact Line.sets_singleton tabWidth _

/-!
## Statements stand apart
-/

open Lexeme

theorem apart_openingLexemes {g : Gap} (hg : g.reads = true) (exported : Option Export)
    {keyword : List Char} (hkeyword : isWordText keyword = true) {rest : List Lexeme}
    (hrest : Detached rest) : Apart (openingLexemes g exported keyword ++ rest) := by
  cases exported with
  | none => exact apart_word hg hkeyword hrest
  | some e =>
      have hword := apart_word (reads_ofBlank (show isPad [' '] = true from rfl)) hkeyword hrest
      exact apart_keyword hg (by decide) (detached_of_gap hword (by simp))

theorem detached_name {name : List Char} (hname : isWordText name = true) {rest : List Lexeme}
    (hrest : Detached rest) : Detached (.word (.ofBlank [' ']) name :: rest) :=
  detached_of_gap (apart_word (reads_ofBlank (show isPad [' '] = true from rfl)) hname hrest)
    (by simp)

theorem detached_bodyLexemes (tabWidth : Nat) {ps : List (Piece Member)}
    (h : forall m, m ∈ Piece.nodes ps -> m.Canonical) (hsound : Piece.areSound ps = true)
    {rest : List Lexeme} (hrest : Apart rest) :
    Detached (Parser.bodyLexemes (Line.margin tabWidth 1) ps ++ rest) := by
  have hmargin := Piece.isMargin tabWidth 1
  have hfeed := Piece.isMargin_feed
  have hgathers : Piece.Gathers ['\n'] (Line.margin tabWidth 1) [] ps :=
    Piece.reads_nextBlank hmargin.pad hfeed.pad ps
  have hbrace := detached_brace (Piece.reads_leftOver hsound hmargin hfeed _ hgathers) hrest
  have hspell : forall m, m ∈ Piece.nodes ps -> forall g, g.reads = true -> forall rest, Apart rest ->
      Apart (Parser.memberLexemes g m ++ rest) := by
    intro m hm g hg rest hrest
    rw [Parser.memberLexemes, List.append_assoc]
    exact Member.apart_lexemes (h m hm) hg (detached_mark rfl rfl hrest)
  have hbody := Piece.apart_lexemesOf hsound hmargin hfeed hspell _ hgathers hbrace.left
  rw [Parser.bodyLexemes, List.cons_append, List.cons_append, List.append_assoc]
  exact detached_mark rfl rfl hbody

theorem detached_lexemesBehind_bars (tabWidth : Nat) {ts : List TypeTree}
    (h : forall t, t ∈ ts -> t.Canonical) {rest : List Lexeme} (hrest : Detached rest) :
    Detached (TypeTree.lexemesBehind (.mark (Line.margin tabWidth 1) '|') ts ++ rest) := by
  induction ts with
  | nil => exact hrest
  | cons t ts ih =>
      have hmore := ih fun u hu => h u (List.mem_cons_of_mem t hu)
      rw [TypeTree.lexemesBehind, List.cons_append, List.cons_append, List.append_assoc]
      exact detached_mark (Line.isPad_margin tabWidth 1) rfl
        (TypeTree.apart_lexemes (h t List.mem_cons_self) rfl hmore)

theorem apart_declarator {d : Declarator} (h : d.Canonical) (o : Setting) {rest : List Lexeme}
    (hrest : Detached rest) : Detached (d.lexemes o ++ rest) := by
  have hspace : isPad [' '] = true := rfl
  have hvalue : Detached ((d.value.elim [] fun e => .mark [' '] '=' :: e.lexemes o [' ']) ++ rest) := by
    cases hvalue : d.value with
    | none => exact hrest
    | some e =>
        exact detached_mark hspace rfl (Expression.apart_lexemes (h.value e hvalue) o hspace hrest)
  have hdeclared : Detached ((d.declared.elim [] fun t => .mark [] ':' :: t.lexemes [' ']) ++
      ((d.value.elim [] fun e => .mark [' '] '=' :: e.lexemes o [' ']) ++ rest)) := by
    cases hdeclared : d.declared with
    | none => exact hvalue
    | some t =>
        exact detached_mark rfl rfl
          (TypeTree.apart_lexemes (h.declared t hdeclared).left hspace hvalue)
  rw [Declarator.lexemes, List.cons_append, Declarator.tailLexemes, List.append_assoc]
  exact detached_name (isWordText_of_isBindingName h.name) hdeclared

theorem detached_declarators {ds : List Declarator} (h : forall d, d ∈ ds -> d.Canonical)
    (o : Setting) {rest : List Lexeme} (hrest : Detached rest) :
    Detached (Declarator.lexemesOf o ds ++ rest) := by
  cases ds with
  | nil => exact hrest
  | cons d ds =>
      have hmore : forall {es : List Declarator}, (forall e, e ∈ es -> e.Canonical) ->
          Detached ((es.flatMap fun e => .mark [] ',' :: e.lexemes o) ++ rest) := by
        intro es hes
        induction es with
        | nil => exact hrest
        | cons e es ih =>
            have hnext := ih fun f hf => hes f (List.mem_cons_of_mem e hf)
            rw [List.flatMap_cons, List.append_assoc, List.cons_append]
            exact detached_mark rfl rfl (apart_declarator (hes e List.mem_cons_self) o hnext).left
      rw [Declarator.lexemesOf, List.append_assoc]
      exact apart_declarator (h d List.mem_cons_self) o
        (hmore fun e he => h e (List.mem_cons_of_mem d he))

theorem apart_declared {s : Statement} (h : s.Declared printWidth) (tabWidth : Nat) {g : Gap}
    (hg : g.reads = true) {rest : List Lexeme} (hrest : Apart rest) :
    Apart (s.lexemes printWidth tabWidth g ++ rest) := by
  have hsemicolon : Detached (.mark [] ';' :: rest) := detached_mark rfl rfl hrest
  cases h with
  | @interface exported name parameters parents members hexported hname hheader h hsound =>
      have hbody : Detached (membersLexemes tabWidth members ++ rest) := by
        cases members with
        | nil => exact detached_mark rfl rfl (detached_mark rfl rfl hrest).left
        | cons first more => exact detached_bodyLexemes tabWidth h hsound hrest
      rw [lexemes, tailLexemes]
      simp only [List.append_assoc, List.cons_append]
      exact apart_openingLexemes hg exported (show isWordText "interface".toList = true by decide)
        (detached_name (isWordText_of_isIdentifier hname) (Header.detached_lexemes hheader hbody))
  | @typeAlias exported name parameters value hexported hname hheader hflat hbroken =>
      have hvalue : Apart (valueLexemes tabWidth
          (isBroken printWidth (typeAlias exported name parameters value)) value ++
            .mark [] ';' :: rest) := by
        cases hwide : isBroken printWidth (typeAlias exported name parameters value) with
        | false => exact TypeTree.apart_lexemes (hflat hwide) rfl hsemicolon
        | true =>
            obtain ⟨first, more, rfl, hmembers⟩ := hbroken hwide
            exact (detached_lexemesBehind_bars tabWidth (fun t ht => (hmembers t ht).right)
              hsemicolon).left
      rw [lexemes, tailLexemes]
      simp only [List.append_assoc, List.cons_append, List.nil_append]
      exact apart_openingLexemes hg exported (show isWordText "type".toList = true by decide)
        (detached_name (isWordText_of_isIdentifier hname)
          (Header.detached_lexemes hheader (detached_mark rfl rfl hvalue)))
  | @lexical exported keyword ds hexported hkeyword hne h =>
      have hword : isWordText keyword = true := by
        rcases hkeyword with rfl | rfl <;> decide
      rw [lexemes, tailLexemes]
      simp only [List.append_assoc, List.cons_append, List.nil_append]
      exact apart_openingLexemes hg exported hword (detached_declarators h _ hsemicolon)

theorem apart_lexemes {s : Statement} (h : s.Canonical printWidth) (tabWidth : Nat) {g : Gap}
    (hg : g.reads = true) {rest : List Lexeme} (hrest : Apart rest) :
    Apart (s.lexemes printWidth tabWidth g ++ rest) := by
  cases h with
  | declared h => exact apart_declared h tabWidth hg hrest
  | module h _ =>
      obtain ⟨hstatement, hapart, -⟩ := h.ofText
      rw [lexemes_module h]
      obtain ⟨w, more, hcons, hclosed, -⟩ := Module.statement_eq_cons hstatement
      have happart' := apart_withGap hapart hg
      rw [hcons, withGap_keyword] at happart' ⊢
      exact (hclosed.cons _).apart_append happart' hrest

end

end Statement

end TypeScript
end SchemaTypes
