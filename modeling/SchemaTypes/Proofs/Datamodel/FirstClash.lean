import SchemaTypes.Proofs.Datamodel.Clash

/-!
# The first clash

A datamodel is looked at from its first declaration to its last, models before
enumerations, and at each of them its own name comes before the names that it holds.  The
clash that is told is the first one on this way, and there is one just where two names of
one space are equal.
-/

namespace SchemaTypes

/-!
## The first repeated name
-/

/-- A list that is not empty is split at its first value or somewhere behind it. -/
theorem exists_split_cons {α : Type} {P : List α -> α -> Prop} {a : α} {rest : List α} :
    (exists before x after, a :: rest = before ++ x :: after /\ P before x) <->
      P [] a \/ exists before x after, rest = before ++ x :: after /\ P (a :: before) x := by
  constructor
  · rintro ⟨before, x, after, heq, hP⟩
    cases before with
    | nil =>
        cases heq
        exact .inl hP
    | cons head before =>
        obtain ⟨rfl, hrest⟩ := List.cons.inj heq
        exact .inr ⟨before, x, after, hrest, hP⟩
  · rintro (hP | ⟨before, x, after, rfl, hP⟩)
    · exact ⟨[], a, rest, rfl, hP⟩
    · exact ⟨a :: before, x, after, rfl, hP⟩

/-- The name comes after an equal one, and all names in front of it are distinct. -/
def IsFirstRepeated (names : List (List Char)) (name : List Char) : Prop :=
  exists front back, names = front ++ name :: back /\ front.Nodup /\ name ∈ front

theorem firstRepeated_eq_some {seen names : List (List Char)} {name : List Char} :
    firstRepeated seen names = some name <->
      exists front x back, names = front ++ x :: back /\ firstRepeated seen front = none /\
        (x ∈ seen \/ x ∈ front) /\ x = name := by
  induction names generalizing seen with
  | nil => simp [firstRepeated]
  | cons first rest ih =>
      rw [exists_split_cons, firstRepeated.eq_def]
      dsimp only
      by_cases hseen : first ∈ seen
      · simp [firstRepeated, hseen]
      · rw [if_neg hseen, ih]
        simp [firstRepeated, hseen, or_assoc, or_left_comm]

theorem firstRepeated_nil_eq_some {names : List (List Char)} {name : List Char} :
    firstRepeated [] names = some name <-> IsFirstRepeated names name := by
  rw [firstRepeated_eq_some]
  simp only [firstRepeated_nil_eq_none, List.not_mem_nil, false_or]
  constructor
  · rintro ⟨front, x, back, hnames, hfront, hx, rfl⟩
    exact ⟨front, back, hnames, hfront, hx⟩
  · rintro ⟨front, back, hnames, hfront, hname⟩
    exact ⟨front, name, back, hnames, hfront, hname, rfl⟩

/-!
## Scopes

A declaration is a scope: it has a name among the other declarations and holds names of its
own, the fields of a model or the values of an enumeration.
-/

structure Scope where
  name : List Char
  held : List (List Char)
  /-- The clash of a held name with an equal one. -/
  clash : List Char -> Clash

namespace Scope

def AreDistinct (scopes : List Scope) : Prop :=
  (scopes.map name).Nodup /\ forall x, x ∈ scopes -> x.held.Nodup

def named (x : Scope) : List Char × Option Clash :=
  (x.name, (firstRepeated [] x.held).map x.clash)

theorem map_fst_named (scopes : List Scope) : (scopes.map named).map Prod.fst = scopes.map name := by
  rw [List.map_map]
  rfl

end Scope

def Model.scope (m : Model) : Scope :=
  ⟨m.name, m.fields.map Field.name, .field m.name⟩

def Enumeration.scope (e : Enumeration) : Scope :=
  ⟨e.name, e.values.map EnumValue.name, .enumValue e.name⟩

namespace Datamodel

def scopes (d : Datamodel) : List Scope :=
  d.models.map Model.scope ++ d.enums.map Enumeration.scope

theorem namedClashes_eq (d : Datamodel) : d.namedClashes = d.scopes.map Scope.named := by
  rw [namedClashes, scopes, List.map_append, List.map_map, List.map_map]
  rfl

theorem firstClash_named_eq_none {scopes : List Scope} :
    firstClash [] (scopes.map Scope.named) = none <-> Scope.AreDistinct scopes := by
  rw [firstClash_eq_none, Scope.map_fst_named, firstRepeated_nil_eq_none, List.forall_mem_map,
    Scope.AreDistinct]
  simp only [Scope.named, Option.map_eq_none_iff, firstRepeated_nil_eq_none]

/-!
## The clash on the way
-/

/-- The clash of a datamodel that comes first.  At the scope of the clash, all scopes before
it are distinct, and the name of the scope is looked at before the names that it holds. -/
inductive ClashesFirst (d : Datamodel) : Clash -> Prop
  | declaration {before after : List Scope} {x : Scope} (hscopes : d.scopes = before ++ x :: after)
      (hbefore : Scope.AreDistinct before) (hname : x.name ∈ before.map Scope.name) :
      ClashesFirst d (.declaration x.name)
  | held {before after : List Scope} {x : Scope} {name : List Char}
      (hscopes : d.scopes = before ++ x :: after) (hbefore : Scope.AreDistinct before)
      (hname : x.name ∉ before.map Scope.name) (hheld : IsFirstRepeated x.held name) :
      ClashesFirst d (x.clash name)

/-- The first clash is found at a declaration with no clash in front of it: the clash of its
name, if that was seen, and else the one inside it. -/
theorem firstClash_eq_some {seen : List (List Char)} {named : List (List Char × Option Clash)}
    {clash : Clash} :
    firstClash seen named = some clash <->
      exists before x after, named = before ++ x :: after /\ firstClash seen before = none /\
        ((x.1 ∈ seen \/ x.1 ∈ before.map Prod.fst) /\ clash = .declaration x.1 \/
          (x.1 ∉ seen /\ x.1 ∉ before.map Prod.fst) /\ x.2 = some clash) := by
  induction named generalizing seen with
  | nil => simp [firstClash]
  | cons first rest ih =>
      obtain ⟨name, inside⟩ := first
      rw [exists_split_cons, firstClash.eq_def]
      by_cases hseen : name ∈ seen
      · simp [firstClash, hseen, eq_comm]
      · cases inside with
        | some other => simp [firstClash, hseen]
        | none =>
            simp only [if_neg hseen]
            rw [ih]
            simp [firstClash, hseen, or_assoc, or_left_comm, and_assoc, and_left_comm]

theorem clash?_eq_some {d : Datamodel} {clash : Clash} :
    d.clash? = some clash <-> d.ClashesFirst clash := by
  rw [clash?, namedClashes_eq, firstClash_eq_some]
  constructor
  · rintro ⟨before, y, after, hscopes, hbefore, hclash⟩
    obtain ⟨before, more, hsplit, rfl, hmore⟩ := List.map_eq_append_iff.mp hscopes
    obtain ⟨x, after, rfl, rfl, rfl⟩ := List.map_eq_cons_iff.mp hmore
    rw [firstClash_named_eq_none] at hbefore
    rw [Scope.map_fst_named] at hclash
    rcases hclash with ⟨hname, rfl⟩ | ⟨hname, hheld⟩
    · exact .declaration hsplit hbefore (hname.resolve_left List.not_mem_nil)
    · obtain ⟨name, hfirst, rfl⟩ := Option.map_eq_some_iff.mp hheld
      exact .held hsplit hbefore hname.right (firstRepeated_nil_eq_some.mp hfirst)
  · intro h
    cases h with
    | @declaration before after x hscopes hbefore hname =>
        refine ⟨before.map Scope.named, x.named, after.map Scope.named, ?_,
          firstClash_named_eq_none.mpr hbefore, .inl ⟨.inr ?_, rfl⟩⟩
        · rw [hscopes, List.map_append, List.map_cons]
        · rw [Scope.map_fst_named]
          exact hname
    | @held before after x name hscopes hbefore hname hheld =>
        refine ⟨before.map Scope.named, x.named, after.map Scope.named, ?_,
          firstClash_named_eq_none.mpr hbefore, .inr ⟨⟨List.not_mem_nil, ?_⟩, ?_⟩⟩
        · rw [hscopes, List.map_append, List.map_cons]
        · rw [Scope.map_fst_named]
          exact hname
        · rw [Scope.named, firstRepeated_nil_eq_some.mpr hheld, Option.map_some]

/-- A datamodel has no clash just where the names of all declarations are distinct, the names
of all fields of a model and the names of all values of an enumeration.  Otherwise its clash
is the one that comes first. -/
theorem clash?_comes_first (d : Datamodel) :
    (d.clash? = none <->
      (d.models.map Model.name ++ d.enums.map Enumeration.name).Nodup /\
        (forall m, m ∈ d.models -> (m.fields.map Field.name).Nodup) /\
        forall e, e ∈ d.enums -> (e.values.map EnumValue.name).Nodup) /\
      forall clash, d.clash? = some clash <-> d.ClashesFirst clash :=
  ⟨clash?_eq_none, fun _ => clash?_eq_some⟩

/-- The values of the first enumeration are told before the name of the second one, and of
the values the one that is repeated first. -/
example : Datamodel.clash?
    { models := [{ name := "A".toList, fields := [{ name := "x".toList, kind := .relation, type := [] }] }]
      enums :=
        [.ofNames "B".toList ["u".toList, "v".toList, "v".toList, "u".toList],
          .ofNames "A".toList ["w".toList, "w".toList]] } =
    some (.enumValue "B".toList "v".toList) := by
  decide

end Datamodel
end SchemaTypes
