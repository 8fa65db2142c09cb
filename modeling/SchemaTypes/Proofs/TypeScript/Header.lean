import SchemaTypes.Proofs.Style.Types
import SchemaTypes.Proofs.TypeScript.OperandReading

/-!
# Headers of declarations

Behind the name of an interface or of an alias stand its type parameters, and behind those of
an interface the types that it extends.  A statement keeps both as text.  Names, types and
lists of them can be spelled in any layout that is not changed when the text is printed, and
are read as what they are.
-/

namespace SchemaTypes
namespace TypeScript

/-!
## Spellings
-/

def isIdentifier (s : List Char) : Bool :=
  isWordText s && !Parser.reservedWords.any (s == ·.toList)

theorem isWordText_of_isIdentifier {s : List Char} (h : isIdentifier s = true) :
    isWordText s = true := by
  rw [isIdentifier, Bool.and_eq_true] at h
  exact h.left

/-- The lexemes spell a type in any layout, or they are those that it is printed with. -/
inductive TypeTree.Legible : TypeTree -> List Lexeme -> Prop where
  | spelled {t : TypeTree} {ls : List Lexeme} (h : t.Spelled ls) : Legible t ls
  | printed {t : TypeTree} (h : t.Canonical) (b : List Char) : Legible t (t.lexemes b)

namespace Header

/-- One or more of a kind, with commas between them. -/
inductive IsList (p : List Lexeme -> Prop) : List Lexeme -> Prop where
  | items {ls : List Lexeme} {more : List (Further Unit)} (h : p ls)
      (hmore : forall q, q ∈ more -> p q.lexemes) : IsList p (ls ++ Further.lexemesOf ',' more)

/-- A type behind a lexeme that opens it, if there is one. -/
inductive IsClause (opening : List Char -> Lexeme) : List Lexeme -> Prop where
  | absent : IsClause opening []
  | type (b : List Char) {t : TypeTree} {ls : List Lexeme} (h : t.Legible ls) :
      IsClause opening (opening b :: ls)

def boundOpening (b : List Char) : Lexeme :=
  .keyword (.ofBlank b) "extends"

def defaultOpening (b : List Char) : Lexeme :=
  .mark b '='

/-- A name with its bound and its default. -/
inductive IsParameter : List Lexeme -> Prop where
  | named (b : List Char) {name : List Char} {bound default : List Lexeme}
      (hname : isIdentifier name = true) (hbound : IsClause boundOpening bound)
      (hdefault : IsClause defaultOpening default) :
      IsParameter (.word (.ofBlank b) name :: (bound ++ default))

inductive AreParameters : List Lexeme -> Prop where
  | angled (b : List Char) {ls : List Lexeme} (h : IsList IsParameter ls) :
      AreParameters (.mark [] '<' :: (ls ++ [.mark b '>']))

/-- A name with its arguments. -/
inductive IsParent : List Lexeme -> Prop where
  | plain (b : List Char) {name : List Char} (hname : isIdentifier name = true) :
      IsParent [.word (.ofBlank b) name]
  | generic (b b' b'' : List Char) {name : List Char} {first : TypeTree} {ls : List Lexeme}
      {more : List (Further TypeTree)} (hname : isIdentifier name = true) (hfirst : first.Legible ls)
      (hmore : forall q, q ∈ more -> q.value.Legible q.lexemes) :
      IsParent (.word (.ofBlank b) name ::
        (.mark b' '<' :: ls ++ Further.lexemesOf ',' more ++ [.mark b'' '>']))

inductive AreParents : List Lexeme -> Prop where
  | extended {ls : List Lexeme} (h : IsList IsParent ls) :
      AreParents (.keyword (.ofBlank [' ']) "extends" :: ls)

end Header

/-!
## Reading lists
-/

namespace Parser

variable {g : Grammar} {n row : Nat} {ls : List Lexeme} {ts rest : List Token} {t : Token}

theorem isWord_of_excluded {excluded : List String} {gap : Gap} {s : List Char}
    (h : excluded.any (s == ·.toList) = false) {w : String} (hw : w ∈ excluded) :
    ((Lexeme.word gap s).token row).isWord w = false := by
  rw [Lexeme.isWord_word]
  simpa using List.any_eq_false.mp h w hw

theorem isWord_identifier {s : List Char} (h : isIdentifier s = true) (gap : Gap) {w : String}
    (hw : w ∈ reservedWords) : ((Lexeme.word gap s).token row).isWord w = false := by
  rw [isIdentifier, Bool.and_eq_true, Bool.not_eq_true'] at h
  exact isWord_of_excluded h.right hw

theorem run_identifier {s : List Char} (h : isIdentifier s = true) (gap : Gap) (row : Nat)
    (rest : List Token) :
    identifier.run ((Lexeme.word gap s).token row :: rest) =
      some ((Lexeme.word gap s).token row, rest) :=
  run_wordOutside (by simp) fun _ hw => isWord_identifier h gap hw

section

variable {p : Parser Unit} {closers : List Char}

/-- The lexemes are read where a comma or a closing mark stands behind them. -/
def ReadsItem (p : Parser Unit) (closers : List Char) (ls : List Lexeme) : Prop :=
  forall (row : Nat) (rest : List Token), Ends (',' :: closers) rest ->
    p.run (Lexeme.place row ls ++ rest) = some ((), rest)

theorem ends_further (qs : List (Further Unit)) (row : Nat) (hrest : Ends (',' :: closers) rest) :
    Ends (',' :: closers) (Lexeme.place row (Further.lexemesOf ',' qs) ++ rest) := by
  cases qs with
  | nil => exact hrest
  | cons q qs => exact ends_mark _ List.mem_cons_self row _

section

variable (hrest : Ends (',' :: closers) rest) (hnone : (do let _ ← mark ','; p).run rest = none)

include hrest hnone

theorem run_furtherItems {qs : List (Further Unit)}
    (h : forall q, q ∈ qs -> ReadsItem p closers q.lexemes) {fuel : Nat}
    (hfuel : qs.length ≤ fuel) (row : Nat) :
    (manyFrom (do let _ ← mark ','; p) fuel).run
        (Lexeme.place row (Further.lexemesOf ',' qs) ++ rest) =
      some (qs.map Further.value, rest) := by
  induction qs generalizing row fuel with
  | nil => exact run_manyFrom_nil hnone fuel
  | cons q qs ih =>
      obtain ⟨fuel, rfl⟩ : exists m, fuel = m + 1 :=
        ⟨fuel - 1, by simp only [List.length_cons] at hfuel; omega⟩
      have hmore := fun row => ih (fun r hr => h r (List.mem_cons_of_mem q hr))
        (Nat.le_of_succ_le_succ hfuel) row
      have hfirst := fun row row' => h q List.mem_cons_self row _ (ends_further qs row' hrest)
      rw [Further.lexemesOf_cons, Lexeme.place_append, Lexeme.place_cons, List.append_assoc,
        List.cons_append]
      generalize row + Lexeme.rows (.mark q.blank ',' :: q.lexemes) = row₁
      exact run_manyFrom_cons ((run_bind_some (run_mark (by simp))).trans (hfirst _ _)) (hmore row₁)

/-- The first item of a list is read, and then the others with their commas. -/
theorem run_listItems {kind : List Lexeme -> Prop} (h : Header.IsList kind ls)
    (hread : forall ks, kind ks -> ks.length ≤ ls.length -> ReadsItem p closers ks) (row : Nat) :
    exists mid us, p.run (Lexeme.place row ls ++ rest) = some ((), mid) /\
      (many (do let _ ← mark ','; p)).run mid = some (us, rest) := by
  cases h with
  | @items ks qs hfirst hmore =>
      have hitems : forall q, q ∈ qs -> ReadsItem p closers q.lexemes := by
        intro q hq
        have hle := Further.length_le_of_mem ',' hq
        refine hread q.lexemes (hmore q hq) ?_
        rw [List.length_append]
        omega
      have hitem := hread ks hfirst (by simp) row
      have hmany : forall row, (many (do let _ ← mark ','; p)).run
          (Lexeme.place row (Further.lexemesOf ',' qs) ++ rest) = some (qs.map Further.value, rest) := by
        intro row
        have hlength := Further.length_le_lexemesOf ',' qs
        refine run_many (run_furtherItems hrest hnone hitems ?_ row)
        rw [List.length_append, Lexeme.length_place]
        omega
      rw [Lexeme.place_append, List.append_assoc]
      exact ⟨_, _, hitem _ (ends_further qs _ hrest), hmany _⟩

theorem run_list {kind : List Lexeme -> Prop} (h : Header.IsList kind ls)
    (hread : forall ks, kind ks -> ks.length ≤ ls.length -> ReadsItem p closers ks) (row : Nat) :
    exists us, (separated (mark ',') p).run (Lexeme.place row ls ++ rest) = some (us, rest) := by
  obtain ⟨mid, us, hfirst, hmany⟩ := run_listItems hrest hnone h hread row
  exact ⟨_, (run_bind_some hfirst).trans (run_bind_some hmany)⟩

end

theorem run_further_none (ht : t.isMark ',' = false) (p : Parser Unit) (ts : List Token) :
    (do let _ ← mark ','; p).run (t :: ts) = none :=
  run_bind_none (run_mark_none ht)

end

/-!
## Reading types of both kinds
-/

section

variable {u : TypeTree}

theorem eq_cons_of_legible (h : u.Legible ls) :
    exists l more b, ls = l :: more /\ l.gap = .ofBlank b /\
      forall row, (l.token row).isMark '>' = false := by
  cases h with
  | spelled h =>
      obtain ⟨l, more, b, hls, hgap, hmark⟩ := h.eq_cons
      exact ⟨l, more, b, hls, hgap, fun row => hmark row '>' (by decide) (by simp)⟩
  | printed h b =>
      obtain ⟨l, more, hls, hgap, hmark⟩ := TypeTree.lexemes_eq_cons h b
      exact ⟨l, more, b, hls, hgap, fun row => hmark row '>' (by decide)⟩

/-- The grammar reads the types of at most so many lexemes. -/
structure ReadsLegible (g : Grammar) (n : Nat) : Prop where
  types : ReadsTypes g n
  spellings : ReadsSpellings g n

variable (hg : ReadsLegible g n) (h : u.Legible ls) (hsize : ls.length ≤ n)

include hg h hsize

theorem readsAs_of_legible : ReadsAs g ls u := by
  intro context row rest hrest
  cases h with
  | spelled h => exact hg.spellings u ls h hsize context row rest hrest
  | printed h b =>
      rw [TypeTree.length_lexemes h] at hsize
      exact hg.types u h hsize context b row rest hrest

theorem readsArgument_of_legible : ReadsArgument g ls u := by
  have hread := readsAs_of_legible hg h hsize
  cases h with
  | spelled h => exact readsArgument_spelled h hread
  | printed h b =>
      intro row rest hrest
      simp [typeArgument, run_commentTypes_place h, hread .enclosed row rest hrest]

end

/-!
## Reading parameters and parents
-/

theorem closes_default {default : List Lexeme} (h : Header.IsClause Header.defaultOpening default)
    (row : Nat) (hrest : Ends [',', '>'] rest) :
    Closes typeClosers (Lexeme.place row default ++ rest) := by
  cases h with
  | absent => exact Closes.mono (hrest.closes (by decide)) (by decide)
  | type b ht =>
      obtain ⟨l, more, b', rfl, -, hmark⟩ := eq_cons_of_legible ht
      refine ⟨⟨_, _, rfl, .inr ⟨'=', by decide, by simp [Header.defaultOpening]⟩⟩, ?_⟩
      simp [startsWithMarks, hmark]

section

variable (hg : ReadsLegible g n) (hsize : ls.length ≤ n)

include hg hsize

theorem run_default (h : Header.IsClause Header.defaultOpening ls) (row : Nat)
    (hrest : Ends [',', '>'] rest) :
    (do if ← mark? '=' then let _ ← g.type .enclosed : Parser Unit).run
        (Lexeme.place row ls ++ rest) = some ((), rest) := by
  cases h with
  | absent =>
      obtain ⟨t, ts, c, rfl, hc, ht⟩ := hrest
      have hequals : t.isMark '=' = false := by
        refine Token.isMark_of_isMark ht ?_
        rintro rfl
        revert hc
        decide
      simp [run_mark?, hequals]
  | @type b u ks h =>
      have hread := readsAs_of_legible hg h (Nat.le_of_succ_le hsize) .enclosed
      have hcloses : Closes typeClosers rest := Closes.mono (hrest.closes (by decide)) (by decide)
      rw [Lexeme.place_cons, List.cons_append]
      simp [Header.defaultOpening, run_mark?, hread _ rest hcloses]

theorem run_bound (h : Header.IsClause Header.boundOpening ls) (more : Parser Unit) (row : Nat)
    (hrest : Closes typeClosers rest) :
    (do
      if ← either? (word? "extends") (mark? ':') then
        let _ ← g.type .enclosed
      more : Parser Unit).run (Lexeme.place row ls ++ rest) = more.run rest := by
  cases h with
  | absent =>
      obtain ⟨t, ts, rfl⟩ := hrest.exists_cons
      have hextends : t.isWord "extends" = false := hrest.isWord (by decide)
      have hcolon : t.isMark ':' = false := hrest.isMark (by decide)
      simp [either?, run_word?, run_mark?, hextends, hcolon]
  | @type b u ks h =>
      have hread := readsAs_of_legible hg h (Nat.le_of_succ_le hsize) .enclosed
      rw [Lexeme.place_cons, List.cons_append]
      simp [Header.boundOpening, either?, run_word?, hread _ rest hrest]

theorem readsItem_parameter (h : Header.IsParameter ls) :
    ReadsItem (typeParameter g) ['>'] ls := by
  intro row rest hrest
  cases h with
  | @named b name bound default hname hbound hdefault =>
      simp only [List.length_cons, List.length_append] at hsize
      have hconst := @isWord_identifier row name hname (.ofBlank b) "const" (by decide)
      rw [Lexeme.place_cons, List.cons_append, Lexeme.place_append, List.append_assoc]
      unfold typeParameter
      simp only [StateT.run_bind, run_atWord, hconst, run_identifier hname, Option.bind_eq_bind,
        Option.bind_some, Bool.false_eq_true, if_false]
      refine (run_bound hg (by omega) hbound _ _ (closes_default hdefault _ hrest)).trans ?_
      exact run_default hg (by omega) hdefault _ hrest

end

theorem run_typeParameters (hg : ReadsLegible g n) (h : Header.AreParameters ls)
    (hsize : ls.length ≤ n) (row : Nat) (rest : List Token) :
    (typeParameters g).run (Lexeme.place row ls ++ rest) = some ((), rest) := by
  cases h with
  | @angled b ks h =>
      simp only [List.length_append, List.length_cons] at hsize
      have hends : forall row, Ends [',', '>'] ((Lexeme.mark b '>').token row :: rest) :=
        fun row => ends_mark b (by decide) row rest
      have hlist := fun row row' => run_list (hends row') (run_further_none (by simp) _ _) h
        (fun js hjs hle => readsItem_parameter hg (show js.length ≤ n by omega) hjs) row
      rw [Lexeme.place_cons, List.cons_append, Lexeme.place_append, List.append_assoc]
      obtain ⟨us, hus⟩ := hlist (row + Lexeme.rows [.mark [] '<'])
        (row + Lexeme.rows [.mark [] '<'] + Lexeme.rows ks)
      simp [typeParameters, run_mark, run_mark?, hus]

/-- The rule of an interface for one of the types that it extends. -/
def parent (g : Grammar) : Parser Unit := do
  let _ ← identifier
  pathRest
  if ← atMark '<' then
    let _ ← typeArguments g

theorem readsItem_parent (hg : ReadsLegible g n) (hsize : ls.length ≤ n) (h : Header.IsParent ls) :
    ReadsItem (parent g) ['\x7b'] ls := by
  intro row rest hrest
  cases h with
  | @plain b name hname =>
      obtain ⟨t, ts, c, rfl, hc, ht⟩ := hrest
      have hmarks : forall c, c ∈ [',', '\x7b'] -> c ≠ '.' /\ c ≠ '<' :=
        forall_mem_of_all (by decide)
      have hpoint : t.isMark '.' = false := Token.isMark_of_isMark ht (hmarks c hc).left
      have hangle : t.isMark '<' = false := Token.isMark_of_isMark ht (hmarks c hc).right
      simp [parent, run_identifier hname, run_pathRest hpoint, run_atMark, hangle]
  | @generic b b' b'' name first ks more hname hfirst hmore =>
      simp only [List.length_cons, List.length_append] at hsize
      have hargument := readsArgument_of_legible hg hfirst (by omega)
      have hfurther : forall q, q ∈ more -> ReadsArgument g q.lexemes q.value := by
        intro q hq
        have hle := Further.length_le_of_mem ',' hq
        exact readsArgument_of_legible hg (hmore q hq) (by omega)
      have harguments := run_typeArguments_further hargument hfurther b' b''
        (row + Lexeme.rows [.word (.ofBlank b) name]) rest
      have hpoint : forall row, ((Lexeme.mark b' '<').token row).isMark '.' = false := by simp
      rw [Lexeme.place_cons, List.cons_append]
      simp only [List.cons_append, Lexeme.place_cons] at harguments ⊢
      generalize Lexeme.place _ (ks ++ Further.lexemesOf ',' more ++ [.mark b'' '>']) ++ rest = behind
        at harguments
      simp [parent, run_identifier hname, run_pathRest (hpoint _), run_atMark, harguments]

theorem run_parents (hg : ReadsLegible g n) (h : Header.AreParents ls) (hsize : ls.length ≤ n)
    (row : Nat) (hrest : Ends ['\x7b'] rest) :
    (do
      let _ ← advance
      let _ ← separated (mark ',') (parent g) : Parser Unit).run (Lexeme.place row ls ++ rest) =
        some ((), rest) := by
  cases h with
  | @extended ks h =>
      simp only [List.length_cons] at hsize
      have hnone : (do let _ ← mark ','; parent g).run rest = none := by
        obtain ⟨t, ts, c, rfl, hc, ht⟩ := hrest
        refine run_further_none (Token.isMark_of_isMark ht ?_) _ _
        rintro rfl
        revert hc
        decide
      obtain ⟨us, hus⟩ := run_list (hrest.mono (by decide)) hnone h
        (fun js hjs hle => readsItem_parent hg (show js.length ≤ n by omega) hjs)
        (row + Lexeme.rows [.keyword (.ofBlank [' ']) "extends"])
      rw [Lexeme.place_cons, List.cons_append]
      simp [run_advance, hus]

/-!
## Headers

A header is kept if printing it changes nothing.
-/

end Parser

namespace Header

structure IsKept (parameters : List Char) (parents : Option (List Char)) : Prop where
  areParameters : parameters = [] \/ Lexeme.SpelledAs AreParameters parameters
  areParents : forall s, parents = some s -> Lexeme.SpelledAs AreParents (' ' :: s)
  collapse_parameters : Text.collapse parameters = parameters
  collapse_parents : forall s, parents = some s -> Text.collapse s = s

theorem isKept_nil : IsKept [] none :=
  ⟨.inl rfl, nofun, rfl, nofun⟩

example : IsKept "<T>".toList (some "extends Base".toList) := by
  have hparameters : AreParameters [.mark [] '<', .word (.ofBlank []) ['T'], .mark [] '>'] :=
    .angled [] (@IsList.items _ _ [] (.named [] (by decide) .absent .absent) nofun)
  have hparents : AreParents
      [.keyword (.ofBlank [' ']) "extends", .word (.ofBlank [' ']) "Base".toList] :=
    .extended (@IsList.items _ _ [] (IsParent.plain [' '] (by decide)) nofun)
  refine ⟨.inr ⟨_, hparameters, ?_, rfl⟩, ?_, rfl, ?_⟩
  · simp [Lexeme.Apart]
    decide
  · intro s hs
    obtain rfl := Option.some.inj hs
    refine ⟨_, hparents, ?_, rfl⟩
    simp [Lexeme.Apart]
    decide
  · intro s hs
    obtain rfl := Option.some.inj hs
    rfl

def parentLexemes (parents : Option (List Char)) : List Lexeme :=
  parents.elim [] fun s => Lexeme.ofText (' ' :: s)

def lexemes (parameters : List Char) (parents : Option (List Char)) : List Lexeme :=
  Lexeme.ofText parameters ++ parentLexemes parents

/-- The text of a header as it is printed. -/
def text (parameters : List Char) (parents : Option (List Char)) : List Char :=
  Text.collapse parameters ++ parents.elim [] (' ' :: Text.collapse ·)

@[simp] theorem text_nil : text [] none = [] :=
  rfl

section

variable {parameters : List Char} {parents : Option (List Char)} (h : IsKept parameters parents)

include h

theorem source_parameters : Lexeme.source (Lexeme.ofText parameters) = parameters := by
  rcases h.areParameters with rfl | hspelled
  · rw [Lexeme.ofText_nil, Lexeme.source_nil]
  · exact hspelled.ofText.right.right

theorem source_lexemes : Lexeme.source (lexemes parameters parents) = text parameters parents := by
  rw [lexemes, Lexeme.source_append, source_parameters h, text, h.collapse_parameters]
  cases parents with
  | none => rfl
  | some s =>
      rw [parentLexemes, Option.elim_some, (h.areParents s rfl).ofText.right.right, Option.elim_some,
        h.collapse_parents s rfl]

theorem rows_lexemes : Lexeme.rows (lexemes parameters parents) = 0 := by
  have hcollapse : forall s, '\n' ∉ Text.collapse s := by
    intro s hmem
    rcases Text.of_mem_collapse hmem with hspace | ⟨-, hblank⟩
    · cases hspace
    · cases hblank
  rw [Lexeme.rows, source_lexemes h, Text.lineFeeds, List.count_eq_zero, text, List.mem_append,
    not_or]
  refine ⟨hcollapse parameters, ?_⟩
  cases parents with
  | none => exact List.not_mem_nil
  | some s =>
      rw [Option.elim_some, List.mem_cons, not_or]
      exact ⟨by decide, hcollapse s⟩

theorem detached_parameters : Lexeme.Detached (Lexeme.ofText parameters) := by
  rcases h.areParameters with rfl | hspelled
  · rw [Lexeme.ofText_nil]
    exact ⟨trivial, nofun⟩
  · obtain ⟨hparameters, hapart, -⟩ := hspelled.ofText
    generalize Lexeme.ofText parameters = ls at hparameters hapart ⊢
    refine ⟨hapart, ?_⟩
    cases hparameters
    simp [Lexeme.startsApart, Lexeme.isOpen]

theorem detached_parents : Lexeme.Detached (parentLexemes parents) := by
  cases parents with
  | none => exact ⟨trivial, nofun⟩
  | some s =>
      obtain ⟨hparents, hapart, -⟩ := (h.areParents s rfl).ofText
      rw [parentLexemes, Option.elim_some]
      generalize Lexeme.ofText (' ' :: s) = ls at hparents hapart ⊢
      refine ⟨hapart, ?_⟩
      cases hparents
      simp [Lexeme.startsApart]

theorem detached_lexemes {rest : List Lexeme} (hrest : Lexeme.Detached rest) :
    Lexeme.Detached (lexemes parameters parents ++ rest) :=
  ((detached_parameters h).append (detached_parents h)).append hrest

end

end Header

namespace Parser

variable {g : Grammar} {n row : Nat} {rest ts : List Token} {t : Token} {parameters : List Char}
  {parents : Option (List Char)}

theorem run_textOf_place {p : Parser Unit} {l : Lexeme} {ls : List Lexeme}
    (h : p.run (Lexeme.place row (l :: ls) ++ rest) = some ((), rest)) :
    (textOf p).run (Lexeme.place row (l :: ls) ++ rest) = some (l.text ++ Lexeme.source ls, rest) := by
  rw [run_textOf h, Lexeme.written_place]

section

variable {α : Type}

theorem run_noParameters (ht : t.isMark '<' = false) (next : List Char -> Parser α) :
    (do
      let parameters ← if ← atMark '<' then textOf (typeParameters g) else pure []
      next parameters).run (t :: ts) = (next []).run (t :: ts) := by
  simp [run_atMark, ht]

theorem run_noParents (ht : t.isWord "extends" = false) (next : Option (List Char) -> Parser α) :
    (do
      let parents ←
        if ← atWord "extends" then
          some <$> textOf (do
            let _ ← advance
            let _ ← separated (mark ',') (parent g))
        else
          pure none
      next parents).run (t :: ts) = (next none).run (t :: ts) := by
  simp [run_atWord, ht]

variable (hg : ReadsLegible g n) (h : Header.IsKept parameters parents)

include hg h

theorem run_parameters (hsize : (Lexeme.ofText parameters).length ≤ n) (row : Nat)
    (ht : t.isMark '<' = false) (next : List Char -> Parser α) :
    (do
      let parameters ← if ← atMark '<' then textOf (typeParameters g) else pure []
      next parameters).run (Lexeme.place row (Lexeme.ofText parameters) ++ t :: ts) =
        (next parameters).run (t :: ts) := by
  rcases h.areParameters with rfl | hspelled
  · rw [Lexeme.ofText_nil, Lexeme.place_nil, List.nil_append]
    exact run_noParameters ht next
  · obtain ⟨hparameters, -, hsource⟩ := hspelled.ofText
    have hread := run_typeParameters hg hparameters hsize row (t :: ts)
    generalize Lexeme.ofText parameters = ls at hparameters hsource hread ⊢
    cases hparameters with
    | @angled b ks _ =>
        have htext := run_textOf_place hread
        rw [← hsource]
        rw [Lexeme.place_cons, List.cons_append] at htext ⊢
        simp [run_atMark, htext, -Lexeme.place_append]

theorem run_extended (hsize : (Header.parentLexemes parents).length ≤ n) (row : Nat)
    (hrest : Ends ['\x7b'] rest) (next : Option (List Char) -> Parser α) :
    (do
      let parents ←
        if ← atWord "extends" then
          some <$> textOf (do
            let _ ← advance
            let _ ← separated (mark ',') (parent g))
        else
          pure none
      next parents).run (Lexeme.place row (Header.parentLexemes parents) ++ rest) =
        (next parents).run rest := by
  cases parents with
  | none =>
      obtain ⟨t, ts, c, rfl, -, ht⟩ := hrest
      have hextends : t.isWord "extends" = false := by
        refine Token.isWord_of_kind ?_ _
        rw [Token.kind_of_isMark ht]
        decide
      exact run_noParents hextends next
  | some s =>
      obtain ⟨hparents, -, hsource⟩ := (h.areParents s rfl).ofText
      rw [Header.parentLexemes, Option.elim_some] at hsize ⊢
      have hread := run_parents hg hparents hsize row hrest
      generalize Lexeme.ofText (' ' :: s) = ls at hparents hsource hread ⊢
      cases hparents with
      | @extended ks _ =>
          have htext := run_textOf_place hread
          have hs : s = (Lexeme.keyword (.ofBlank [' ']) "extends").text ++ Lexeme.source ks := by
            simpa using hsource.symm
          rw [← hs, Lexeme.place_cons, List.cons_append] at htext
          rw [Lexeme.place_cons, List.cons_append]
          refine (run_bind_some (run_atWord "extends")).trans ?_
          rw [Lexeme.isWord_keyword, beq_self_eq_true, if_pos rfl]
          exact run_bind_some (run_map_some htext)

omit hg in
theorem place_parents_eq_cons (row : Nat) {u : Token} (hu : u.isMark '\x7b' = true) (us : List Token) :
    exists t ts, Lexeme.place row (Header.parentLexemes parents) ++ u :: us = t :: ts /\
      t.isMark '<' = false := by
  cases parents with
  | none => exact ⟨u, us, rfl, Token.isMark_of_isMark hu (by decide)⟩
  | some s =>
      obtain ⟨hparents, -, -⟩ := (h.areParents s rfl).ofText
      rw [Header.parentLexemes, Option.elim_some]
      generalize Lexeme.ofText (' ' :: s) = ls at hparents ⊢
      cases hparents with
      | extended _ => exact ⟨_, _, rfl, by simp⟩

end

end Parser

end TypeScript
end SchemaTypes
