import SchemaTypes.TypeScript.Grammar.Statements
import SchemaTypes.Proofs.TypeScript.Lossless
import SchemaTypes.Proofs.TypeScript.Run

/-!
# Parsers copy

A tree holds texts only as they stood in the source: whatever holds of the characters
and comments of the tokens that a parser starts with holds of those of its result and
of the tokens it leaves.  Each combination of parsers keeps this, so that it is derived
for a rule of the grammar by instance resolution along the rule's definition.
-/

namespace SchemaTypes
namespace TypeScript

/-!
## Texts of values
-/

/-- The characters that a value was written with and the comments it keeps. -/
class HasTexts (α : Type) where
  chars : α -> List Char
  comments : α -> List Comment

/-- `p` holds of every character of a value and `q` of every comment it keeps. -/
class Holds (p : Char -> Prop) (q : Comment -> Prop) {α : Type} [HasTexts α] (a : α) : Prop where
  chars : forall c, c ∈ HasTexts.chars a -> p c
  comments : forall c, c ∈ HasTexts.comments a -> q c

variable {p : Char -> Prop} {q : Comment -> Prop} {α β γ : Type} [HasTexts α] [HasTexts β]
  [HasTexts γ]

namespace HasTexts

instance unit : HasTexts Unit := ⟨fun _ => [], fun _ => []⟩

instance bool : HasTexts Bool := ⟨fun _ => [], fun _ => []⟩

instance string : HasTexts String := ⟨fun _ => [], fun _ => []⟩

instance char : HasTexts Char := ⟨fun c => [c], fun _ => []⟩

instance comment : HasTexts Comment := ⟨Comment.text, fun c => [c]⟩

instance token : HasTexts Token := ⟨fun t => t.gapText ++ t.text, Token.comments⟩

instance name : HasTexts PropertyName := ⟨PropertyName.text, fun _ => []⟩

instance list : HasTexts (List α) := ⟨List.flatMap chars, List.flatMap comments⟩

instance option : HasTexts (Option α) := ⟨fun o => o.elim [] chars, fun o => o.elim [] comments⟩

instance prod : HasTexts (α × β) :=
  ⟨fun x => chars x.1 ++ chars x.2, fun x => comments x.1 ++ comments x.2⟩

instance item : HasTexts (Item α) where
  chars
    | .comment c => chars c
    | .node _ _ a => chars a
  comments
    | .comment c => comments c
    | .node _ _ a => comments a

end HasTexts

namespace Holds

-- what a combination asks of every value that holds what it should is stated over the
-- subtype: instance resolution drops an instance argument that the goal does not mention
instance val (a : { a : α // Holds p q a }) : Holds p q a.val := a.property

instance unit (a : Unit) : Holds p q a := ⟨nofun, nofun⟩

instance bool (b : Bool) : Holds p q b := ⟨nofun, nofun⟩

instance string (s : String) : Holds p q s := ⟨nofun, nofun⟩

/-!
## Lists, options and pairs
-/

theorem list_iff {as : List α} : Holds p q as <-> forall a, a ∈ as -> Holds p q a := by
  constructor
  · intro h a ha
    exact ⟨fun c hc => h.chars c (List.mem_flatMap.mpr ⟨a, ha, hc⟩),
      fun c hc => h.comments c (List.mem_flatMap.mpr ⟨a, ha, hc⟩)⟩
  · intro h
    constructor
    · intro c hc
      obtain ⟨a, ha, hc⟩ := List.mem_flatMap.mp hc
      exact (h a ha).chars c hc
    · intro c hc
      obtain ⟨a, ha, hc⟩ := List.mem_flatMap.mp hc
      exact (h a ha).comments c hc

theorem of_mem {as : List α} (h : Holds p q as) {a : α} (ha : a ∈ as) : Holds p q a :=
  list_iff.mp h a ha

theorem of_subset {as bs : List α} (h : Holds p q as) (hsub : bs ⊆ as) : Holds p q bs :=
  list_iff.mpr fun _ hb => h.of_mem (hsub hb)

theorem text_iff {s : List Char} : Holds p q s <-> forall c, c ∈ s -> p c := by
  constructor
  · intro h c hc
    exact (h.of_mem hc).chars c (List.mem_singleton_self c)
  · intro h
    refine list_iff.mpr fun c hc => ⟨fun d hd => ?_, nofun⟩
    rw [List.mem_singleton.mp hd]
    exact h c hc

instance nil : Holds p q ([] : List α) := ⟨nofun, nofun⟩

instance cons {a : α} {as : List α} [ha : Holds p q a] [has : Holds p q as] : Holds p q (a :: as) :=
  list_iff.mpr (List.forall_mem_cons.mpr ⟨ha, list_iff.mp has⟩)

theorem head {a : α} {as : List α} (h : Holds p q (a :: as)) : Holds p q a :=
  h.of_mem List.mem_cons_self

theorem tail {a : α} {as : List α} (h : Holds p q (a :: as)) : Holds p q as :=
  h.of_subset (List.subset_cons_self a as)

instance append {as bs : List α} [ha : Holds p q as] [hb : Holds p q bs] : Holds p q (as ++ bs) :=
  list_iff.mpr (List.forall_mem_append.mpr ⟨list_iff.mp ha, list_iff.mp hb⟩)

instance flatten {ass : List (List α)} [h : Holds p q ass] : Holds p q ass.flatten := by
  refine list_iff.mpr fun a ha => ?_
  obtain ⟨as, has, ha⟩ := List.mem_flatten.mp ha
  exact (h.of_mem has).of_mem ha

instance drop {as : List α} {n : Nat} [h : Holds p q as] : Holds p q (as.drop n) :=
  h.of_subset (List.drop_subset n as)

instance dropLast {as : List α} [h : Holds p q as] : Holds p q as.dropLast :=
  h.of_subset (List.dropLast_subset as)

instance map {as : List α} {f : α -> β} [h : Holds p q as]
    [hf : forall a : { a // Holds p q a }, Holds p q (f a.val)] : Holds p q (as.map f) := by
  refine list_iff.mpr fun b hb => ?_
  obtain ⟨a, ha, rfl⟩ := List.mem_map.mp hb
  exact hf ⟨a, h.of_mem ha⟩

instance none : Holds p q (none : Option α) := ⟨nofun, nofun⟩

instance some {a : α} [h : Holds p q a] : Holds p q (some a) := ⟨h.chars, h.comments⟩

theorem of_some {a : α} (h : Holds p q (Option.some a)) : Holds p q a := ⟨h.chars, h.comments⟩

instance head? {as : List α} [h : Holds p q as] : Holds p q as.head? := by
  cases as with
  | nil => exact none
  | cons a as =>
      have := h.head
      exact some

instance getLast? {as : List α} [h : Holds p q as] : Holds p q as.getLast? := by
  cases hlast : as.getLast? with
  | none => exact none
  | some a =>
      have := h.of_mem (List.mem_of_getLast? hlast)
      exact some

instance elim {o : Option α} {b : β} {f : α -> β} [ho : Holds p q o] [hb : Holds p q b]
    [hf : forall a : { a // Holds p q a }, Holds p q (f a.val)] : Holds p q (o.elim b f) := by
  cases o with
  | none => exact hb
  | some a => exact hf ⟨a, ho.of_some⟩

instance getD {o : Option α} {a : α} [ho : Holds p q o] [ha : Holds p q a] : Holds p q (o.getD a) := by
  cases o with
  | none => exact ha
  | some b => exact ho.of_some

instance optionMap {o : Option α} {f : α -> β} [ho : Holds p q o]
    [hf : forall a : { a // Holds p q a }, Holds p q (f a.val)] : Holds p q (o.map f) := by
  cases o with
  | none => exact none
  | some a =>
      have := hf ⟨a, ho.of_some⟩
      exact some

instance bind {o : Option α} {f : α -> Option β} [ho : Holds p q o]
    [hf : forall a : { a // Holds p q a }, Holds p q (f a.val)] : Holds p q (o.bind f) := by
  cases o with
  | none => exact none
  | some a => exact hf ⟨a, ho.of_some⟩

instance toList {o : Option α} [ho : Holds p q o] : Holds p q o.toList := by
  cases o with
  | none => exact nil
  | some a =>
      have := ho.of_some
      exact cons

instance pair {a : α} {b : β} [ha : Holds p q a] [hb : Holds p q b] : Holds p q (a, b) :=
  ⟨fun c hc => (List.mem_append.mp hc).elim (ha.chars c) (hb.chars c),
    fun c hc => (List.mem_append.mp hc).elim (ha.comments c) (hb.comments c)⟩

instance fst {x : α × β} [h : Holds p q x] : Holds p q x.1 :=
  ⟨fun c hc => h.chars c (List.mem_append_left _ hc),
    fun c hc => h.comments c (List.mem_append_left _ hc)⟩

instance snd {x : α × β} [h : Holds p q x] : Holds p q x.2 :=
  ⟨fun c hc => h.chars c (List.mem_append_right _ hc),
    fun c hc => h.comments c (List.mem_append_right _ hc)⟩

instance ite {b : Prop} [Decidable b] {a a' : α} [ha : Holds p q a] [ha' : Holds p q a'] :
    Holds p q (if b then a else a') := by
  split
  · exact ha
  · exact ha'

instance itemComment {c : Comment} [h : Holds p q c] : Holds p q (Item.comment c : Item α) :=
  ⟨h.chars, h.comments⟩

instance itemNode {row endRow : Nat} {a : α} [h : Holds p q a] : Holds p q (Item.node row endRow a) :=
  ⟨h.chars, h.comments⟩

/-!
## Tokens
-/

variable {t : Token} {ts rest : List Token}

instance tokenText [h : Holds p q t] : Holds p q t.text :=
  text_iff.mpr fun c hc => h.chars c (List.mem_append_right _ hc)

instance tokenComments [h : Holds p q t] : Holds p q t.comments := by
  refine list_iff.mpr fun c hc => ⟨fun d hd => ?_, fun d hd => ?_⟩
  · obtain ⟨trivia, htrivia, hcomment⟩ := List.mem_filterMap.mp hc
    refine h.chars d (List.mem_append_left _ (List.mem_flatMap.mpr ⟨trivia, htrivia, ?_⟩))
    cases trivia with
    | blank s => cases hcomment
    | comment c' =>
        cases hcomment
        exact hd
  · rw [List.mem_singleton.mp hd]
    exact h.comments c hc

instance commentText {c : Comment} [h : Holds p q c] : Holds p q c.text :=
  text_iff.mpr h.chars

instance name {s : List Char} {quoted : Bool} [h : Holds p q s] : Holds p q (PropertyName.mk s quoted) :=
  ⟨text_iff.mp h, nofun⟩

theorem of_gap {gap : List Trivia} (h : Holds p q t) (hsub : gap ⊆ t.gap) :
    Holds p q { t with gap } := by
  constructor
  · intro c hc
    rcases List.mem_append.mp hc with hc | hc
    · obtain ⟨trivia, htrivia, hc⟩ := List.mem_flatMap.mp hc
      exact h.chars c (List.mem_append_left _ (List.mem_flatMap.mpr ⟨trivia, hsub htrivia, hc⟩))
    · exact h.chars c (List.mem_append_right _ hc)
  · intro c hc
    obtain ⟨trivia, htrivia, hc⟩ := List.mem_filterMap.mp hc
    exact h.comments c (List.mem_filterMap.mpr ⟨trivia, hsub htrivia, hc⟩)

theorem gapRead_subset (t : Token) (rest : List Token) : Token.gapRead (Option.some t) rest ⊆ t.gap := by
  cases rest with
  | nil => exact List.nil_subset _
  | cons r rest => exact List.take_subset _ _

/-- A piece of a source is made of characters of the tokens from its start on. -/
instance textUpTo [h : Holds p q ts] : Holds p q (Token.textUpTo ts rest) := by
  have hsource : forall ts' : List Token, ts' ⊆ ts -> forall c, c ∈ Token.source ts' -> p c :=
    fun ts' hsub => (h.of_subset hsub).chars
  have hgap : forall c, c ∈ (Token.gapRead ts[ts.length - rest.length]? rest).flatMap Trivia.text ->
      p c := by
    intro c hc
    cases hnext : ts[ts.length - rest.length]? with
    | none =>
        rw [hnext] at hc
        cases hc
    | some t =>
        rw [hnext] at hc
        obtain ⟨trivia, htrivia, hc⟩ := List.mem_flatMap.mp hc
        exact (h.of_mem (List.mem_of_getElem? hnext)).chars c
          (List.mem_append_left _ (List.mem_flatMap.mpr ⟨trivia, gapRead_subset t rest htrivia, hc⟩))
  refine text_iff.mpr fun c hc => ?_
  unfold Token.textUpTo at hc
  dsimp only at hc
  split at hc
  · exact hgap c hc
  · rename_i t more htaken
    have hsub : t :: more ⊆ ts := htaken ▸ List.take_subset _ _
    rcases List.mem_append.mp hc with hc | hc
    · rcases List.mem_append.mp hc with hc | hc
      · exact (h.of_mem (hsub List.mem_cons_self)).chars c (List.mem_append_right _ hc)
      · exact hsource more (fun _ ht => hsub (List.mem_cons_of_mem t ht)) c hc
    · exact hgap c hc

end Holds

/-!
## Combinations of parsers
-/

namespace Parser

/-- What holds of the tokens that the parser starts with holds of its result and of the
tokens it leaves. -/
class Copies (p : Char -> Prop) (q : Comment -> Prop) (m : Parser α) : Prop where
  run : forall {ts rest : List Token} {a : α}, Holds p q ts -> m.run ts = some (a, rest) ->
    Holds p q a /\ Holds p q rest

namespace Copies

variable {m m' : Parser α} {f : α -> Parser β}

instance bind [hm : Copies p q m] [hf : forall a : { a // Holds p q a }, Copies p q (f a.val)] :
    Copies p q (m >>= f) where
  run := by
    intro ts rest b hts hrun
    obtain ⟨⟨a, mid⟩, hread, hrun⟩ := Option.bind_eq_some_iff.mp hrun
    obtain ⟨ha, hmid⟩ := hm.run hts hread
    exact (hf ⟨a, ha⟩).run hmid hrun

theorem bind_of [Copies p q m] (hf : forall a, Holds p q a -> Copies p q (f a)) :
    Copies p q (m >>= f) := by
  have := fun a : { a // Holds p q a } => hf a.val a.property
  infer_instance

/-- A pair is taken apart before the parser behind it is looked at. -/
instance bindPair {m : Parser (α × β)} {f : α × β -> Parser γ} [hm : Copies p q m]
    [hf : forall (a : { a // Holds p q a }) (b : { b // Holds p q b }), Copies p q (f (a.val, b.val))] :
    Copies p q (m >>= f) where
  run := by
    intro ts rest c hts hrun
    obtain ⟨⟨⟨a, b⟩, mid⟩, hread, hrun⟩ := Option.bind_eq_some_iff.mp hrun
    obtain ⟨hab, hmid⟩ := hm.run hts hread
    exact (hf ⟨a, hab.fst⟩ ⟨b, hab.snd⟩).run hmid hrun

/-- Whether there is a result is told before the parser behind it is looked at. -/
instance bindOption {m : Parser (Option α)} {f : Option α -> Parser β} [hm : Copies p q m]
    [hnone : Copies p q (f none)] [hf : forall a : { a // Holds p q a }, Copies p q (f (some a.val))] :
    Copies p q (m >>= f) where
  run := by
    intro ts rest b hts hrun
    obtain ⟨⟨o, mid⟩, hread, hrun⟩ := Option.bind_eq_some_iff.mp hrun
    obtain ⟨ho, hmid⟩ := hm.run hts hread
    cases o with
    | none => exact hnone.run hmid hrun
    | some a => exact (hf ⟨a, ho.of_some⟩).run hmid hrun

instance pure {a : α} [ha : Holds p q a] : Copies p q (Pure.pure a : Parser α) where
  run := by
    intro ts rest b hts hrun
    cases hrun
    exact ⟨ha, hts⟩

instance failure : Copies p q (failure : Parser α) := ⟨nofun⟩

instance ite {b : Prop} [Decidable b] [hm : Copies p q m] [hm' : Copies p q m'] :
    Copies p q (if b then m else m') := by
  split
  · exact hm
  · exact hm'

instance orElse [hm : Copies p q m] [hm' : Copies p q m'] : Copies p q (m <|> m') where
  run := by
    intro ts rest a hts hrun
    have hor : (m <|> m').run ts = (m.run ts).or (m'.run ts) := Option.orElse_eq_or
    rw [hor, Option.or_eq_some_iff] at hrun
    rcases hrun with hrun | ⟨_, hrun⟩
    · exact hm.run hts hrun
    · exact hm'.run hts hrun

instance map {f : α -> β} [hm : Copies p q m]
    [hf : forall a : { a // Holds p q a }, Holds p q (f a.val)] : Copies p q (f <$> m) where
  run := by
    intro ts rest b hts hrun
    obtain ⟨⟨a, mid⟩, hread, heq⟩ := Option.bind_eq_some_iff.mp hrun
    cases heq
    obtain ⟨ha, hmid⟩ := hm.run hts hread
    exact ⟨hf ⟨a, ha⟩, hmid⟩

instance get : Copies p q (MonadState.get : Parser (List Token)) where
  run := by
    intro ts rest a hts hrun
    cases hrun
    exact ⟨hts, hts⟩

instance set {ts : List Token} [h : Holds p q ts] : Copies p q (MonadStateOf.set ts : Parser Unit) where
  run := by
    intro ts' rest a hts hrun
    cases hrun
    exact ⟨inferInstance, h⟩

instance modify {f : List Token -> List Token} [hf : forall ts : { ts // Holds p q ts }, Holds p q (f ts.val)] :
    Copies p q (modify f : Parser Unit) where
  run := by
    intro ts rest a hts hrun
    cases hrun
    exact ⟨inferInstance, hf ⟨ts, hts⟩⟩

/-!
## Single tokens
-/

instance peek : Copies p q peek where
  run := by
    intro ts rest t hts hrun
    cases ts with
    | nil => cases hrun
    | cons t' ts =>
        cases hrun
        exact ⟨hts.head, hts⟩

instance second : Copies p q second where
  run := by
    intro ts rest o hts hrun
    match ts, hrun with
    | [], rfl => exact ⟨inferInstance, hts⟩
    | [_], rfl => exact ⟨inferInstance, hts⟩
    | _ :: t :: _, rfl =>
        have := hts.tail.head
        exact ⟨inferInstance, hts⟩

instance advance : Copies p q advance where
  run := by
    intro ts rest t hts hrun
    cases ts with
    | nil => cases hrun
    | cons t' ts =>
        by_cases hend : t'.kind = .endOfSource
        · simp only [Parser.advance, beq_iff_eq, bind_pure_comp, StateT.run_bind, StateT.run_get,
            Option.pure_def, Option.bind_eq_bind, Option.bind_some, hend, if_true, run_failure,
            reduceCtorEq] at hrun
        · rw [run_advance hend] at hrun
          cases hrun
          exact ⟨hts.head, hts.tail⟩

instance atMark (c : Char) : Copies p q (atMark c) := by
  unfold Parser.atMark
  infer_instance

instance atWord (w : String) : Copies p q (atWord w) := by
  unfold Parser.atWord
  infer_instance

instance atKind (k : TokenKind) : Copies p q (atKind k) := by
  unfold Parser.atKind
  infer_instance

instance require (b : Bool) : Copies p q (require b) := by
  unfold Parser.require
  infer_instance

instance mark (c : Char) : Copies p q (mark c) := by
  unfold Parser.mark
  infer_instance

instance word (w : String) : Copies p q (word w) := by
  unfold Parser.word
  infer_instance

instance kind (k : TokenKind) : Copies p q (kind k) := by
  unfold Parser.kind
  infer_instance

instance atMarks (op : String) : Copies p q (atMarks op) := by
  unfold Parser.atMarks
  infer_instance

instance marks (op : String) : Copies p q (marks op) := by
  unfold Parser.marks
  infer_instance

instance mark? (c : Char) : Copies p q (mark? c) := by
  unfold Parser.mark?
  infer_instance

instance word? (w : String) : Copies p q (word? w) := by
  unfold Parser.word?
  infer_instance

instance either? {m m' : Parser Bool} [Copies p q m] [Copies p q m'] : Copies p q (either? m m') := by
  unfold Parser.either?
  infer_instance

instance spread? : Copies p q spread? := by
  unfold Parser.spread?
  infer_instance

instance comments : Copies p q comments := by
  unfold Parser.comments
  infer_instance

/-!
## Repetition and texts
-/

instance optional? [Copies p q m] : Copies p q (optional? m) := by
  unfold Parser.optional?
  infer_instance

instance manyFrom [Copies p q m] (fuel : Nat) : Copies p q (manyFrom m fuel) := by
  induction fuel with
  | zero =>
      unfold Parser.manyFrom
      infer_instance
  | succ fuel ih =>
      unfold Parser.manyFrom
      infer_instance

instance many [Copies p q m] : Copies p q (many m) := by
  unfold Parser.many
  infer_instance

instance separated {separator : Parser β} [Copies p q separator] [Copies p q m] :
    Copies p q (separated separator m) := by
  unfold Parser.separated
  infer_instance

instance withText [Copies p q m] : Copies p q (withText m) := by
  unfold Parser.withText
  infer_instance

instance textOf [Copies p q m] : Copies p q (textOf m) := by
  unfold Parser.textOf
  infer_instance

instance asItem [Copies p q m] : Copies p q (asItem m) := by
  unfold Parser.asItem
  infer_instance

/-!
## Names
-/

instance wordOutside (excluded : List String) : Copies p q (wordOutside excluded) := by
  unfold Parser.wordOutside
  infer_instance

instance identifier : Copies p q identifier := wordOutside _

instance valueName : Copies p q valueName := wordOutside _

instance bindingName : Copies p q bindingName := wordOutside _

instance plainName : Copies p q plainName := by
  unfold Parser.plainName
  infer_instance

/-!
## Ends of statements
-/

/-- Where a statement ends without a semicolon, only the front of a gap is passed. -/
theorem inGap?_subset {operators : Bool} {ts : List Token} {trivia behind : List Trivia}
    (h : Semicolon.inGap? operators ts trivia = some behind) : behind ⊆ trivia := by
  fun_induction Semicolon.inGap? operators ts trivia generalizing behind with
  | case1 =>
      cases h
      exact List.Subset.refl _
  | case2 => cases h
  | case3 _ more ih => exact fun _ hmem => List.mem_cons_of_mem _ (ih h hmem)
  | case4 =>
      cases h
      exact List.Subset.refl _
  | case5 => cases h
  | case6 =>
      rename_i ih
      exact fun _ hmem => List.mem_cons_of_mem _ (List.mem_cons_of_mem _ (ih h hmem))
  | case7 => cases h
  | case8 =>
      cases h
      exact List.Subset.refl _
  | case9 => cases h
  | case10 =>
      rename_i ih
      exact fun _ hmem => List.mem_cons_of_mem _ (ih h hmem)

instance endsHere (context : Context) : Copies p q (endsHere context) := by
  unfold Parser.endsHere
  infer_instance

theorem automaticSemicolon?_rest {operators : Bool} {ts rest : List Token} (hts : Holds p q ts)
    (h : automaticSemicolon? operators ts = some rest) : Holds p q rest := by
  cases ts with
  | nil =>
      cases h
      exact hts
  | cons t more =>
      obtain ⟨gap, hgap, rfl⟩ := Option.map_eq_some_iff.mp h
      have hhead := hts.head.of_gap (inGap?_subset hgap)
      have htail := hts.tail
      infer_instance

theorem comments_gapRead {ts : List Token} (hts : Holds p q ts) (rest : List Token) :
    Holds p q ((Token.gapRead ts.head? rest).filterMap Trivia.comment?) := by
  cases ts with
  | nil => exact .nil
  | cons t more =>
      have hfront := hts.head.of_gap (Holds.gapRead_subset t rest)
      exact hfront.tokenComments

instance automaticSemicolon (operators : Bool) : Copies p q (automaticSemicolon operators) := by
  refine bind_of fun ts hts => ?_
  split
  · rename_i rest hrest
    have := automaticSemicolon?_rest hts hrest
    have := comments_gapRead hts rest
    infer_instance
  · infer_instance

instance semicolon (operators : Bool) : Copies p q (semicolon operators) := by
  unfold Parser.semicolon
  infer_instance

end Copies
end Parser

end TypeScript
end SchemaTypes
