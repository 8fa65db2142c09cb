import Mathlib.Data.List.Forall2
import SchemaTypes.Payload
import SchemaTypes.Proofs.Steps

/-!
# Written datamodels

A datamodel is written as an object, and so are its models, fields, enumerations and values.
Every part has a key, which may be left out where the part is the default one, and other
keys may stand beside them in any object.  A datamodel is read back from whatever it is
written as, by itself, in a document and in a payload.
-/

namespace SchemaTypes

abbrev Writing (α : Type) := α -> Json -> Prop

namespace Writing

variable {α : Type}

/-!
## Plain values
-/

def text : Writing (List Char) := fun s j => j = .string s

def flag : Writing Bool := fun b j => j = .bool b

inductive nullable (w : Writing α) : Writing (Option α)
  | nothing : nullable w none .null
  | just {a : α} {j : Json} (ha : w a j) : nullable w (some a) j

inductive list (w : Writing α) : Writing (List α)
  | items {as : List α} {js : List Json} (has : List.Forall₂ w as js) : list w as (.array js)

/-- A record is written by its keys, in whatever members there are. -/
inductive object (fields : α -> Members -> Prop) : Writing α
  | members {a : α} {o : Members} (ha : fields a o) : object fields a (.object o)

end Writing

namespace Members

variable {α : Type}

def Has (o : Members) (key : String) (w : Writing α) (a : α) : Prop :=
  exists j, o.find? key.toList = some j /\ w a j

/-- The key has a value that is written for `a`, or it is left out for the default. -/
def HasOr (o : Members) (key : String) (w : Writing α) (default a : α) : Prop :=
  o.Has key w a \/ o.find? key.toList = none /\ a = default

end Members

/-!
## Datamodels
-/

def FieldKind.names : FieldKind -> List String
  | scalar => ["scalar"]
  | enum => ["enum"]
  | relation => ["object", "relation"]
  | unsupported => ["unsupported"]

def FieldKind.writing : Writing FieldKind := fun kind j =>
  exists name, name ∈ kind.names /\ j = .ofText name

structure Field.IsWrittenIn (f : Field) (o : Members) : Prop where
  name : o.Has "name" Writing.text f.name
  kind : o.Has "kind" FieldKind.writing f.kind
  type : o.Has "type" Writing.text f.type
  isRequired : o.HasOr "isRequired" Writing.flag false f.isRequired
  isList : o.HasOr "isList" Writing.flag false f.isList

structure Model.IsWrittenIn (m : Model) (o : Members) : Prop where
  name : o.Has "name" Writing.text m.name
  fields : o.HasOr "fields" (Writing.list (Writing.object Field.IsWrittenIn)) [] m.fields

structure EnumValue.IsWrittenIn (v : EnumValue) (o : Members) : Prop where
  name : o.Has "name" Writing.text v.name
  dbName : o.HasOr "dbName" (Writing.nullable Writing.text) none v.dbName

structure Enumeration.IsWrittenIn (e : Enumeration) (o : Members) : Prop where
  name : o.Has "name" Writing.text e.name
  values : o.HasOr "values" (Writing.list (Writing.object EnumValue.IsWrittenIn)) [] e.values

structure Datamodel.IsWrittenIn (d : Datamodel) (o : Members) : Prop where
  models : o.HasOr "models" (Writing.list (Writing.object Model.IsWrittenIn)) [] d.models
  enums : o.HasOr "enums" (Writing.list (Writing.object Enumeration.IsWrittenIn)) [] d.enums

def Datamodel.writing : Writing Datamodel := Writing.object Datamodel.IsWrittenIn

def Document.writing : Writing Datamodel :=
  Writing.object fun d o => o.Has "datamodel" Datamodel.writing d

/-!
## Reading back
-/

namespace Decoder

variable {α : Type} {d : Decoder α} {w : Writing α}

def ReadsBack (d : Decoder α) (w : Writing α) : Prop :=
  forall a j, w a j -> d j = .ok a

theorem readsBack_text : text.ReadsBack Writing.text := by
  rintro s _ rfl
  rfl

theorem readsBack_flag : flag.ReadsBack Writing.flag := by
  rintro b _ rfl
  rfl

theorem ReadsBack.nullable (hd : d.ReadsBack w) (hnull : forall a, ¬ w a .null) :
    (nullable d).ReadsBack (Writing.nullable w) := by
  intro a? j h
  cases h with
  | nothing => rfl
  | @just a j ha =>
      have hread : (d j).map some = .ok (some a) := by
        rw [hd a j ha]
        rfl
      cases j with
      | null => exact absurd ha (hnull a)
      | _ => exact hread

theorem ReadsBack.list (hd : d.ReadsBack w) : (list d).ReadsBack (Writing.list w) := by
  rintro as _ ⟨has⟩
  change List.mapM d _ = _
  induction has with
  | nil => rfl
  | cons ha _ ih =>
      rw [List.mapM_cons, hd _ _ ha, ih]
      rfl

theorem ReadsBack.object {fields : α -> Members -> Prop} {name : String}
    {ofMembers : Members -> Except ShapeFault α} {ofItems : List Json -> Except ShapeFault α}
    (h : forall a o, fields a o -> ofMembers o = .ok a) :
    (record name ofMembers ofItems).ReadsBack (Writing.object fields) := by
  rintro a _ ⟨ha⟩
  exact h a _ ha

theorem ReadsBack.has (hd : d.ReadsBack w) {o : Members} {key : String} {a : α}
    (h : o.Has key w a) : member? d key o = .ok (some a) := by
  obtain ⟨j, hfind, ha⟩ := h
  rw [member?, hfind]
  exact congrArg (Except.map some) (hd a j ha)

theorem ReadsBack.hasOr (hd : d.ReadsBack w) {o : Members} {key : String} {default a : α}
    (h : o.HasOr key w default a) :
    exists a?, member? d key o = .ok a? /\ a?.getD default = a := by
  rcases h with h | ⟨hnone, rfl⟩
  · exact ⟨some a, hd.has h, rfl⟩
  · refine ⟨none, ?_, rfl⟩
    rw [member?, hnone]

end Decoder

open Decoder

theorem FieldKind.readsBack_decode : FieldKind.decode.ReadsBack FieldKind.writing := by
  rintro kind _ ⟨name, hname, rfl⟩
  cases kind <;> simp only [names, List.mem_cons, List.not_mem_nil, or_false] at hname
  · subst hname
    rfl
  · subst hname
    rfl
  · rcases hname with rfl | rfl <;> rfl
  · subst hname
    rfl

theorem Field.readsBack_decode : Field.decode.ReadsBack (Writing.object Field.IsWrittenIn) := by
  refine ReadsBack.object fun f o h => ?_
  obtain ⟨isList?, hisList, hlist⟩ := ReadsBack.hasOr readsBack_flag h.isList
  obtain ⟨isRequired?, hisRequired, hrequired⟩ := ReadsBack.hasOr readsBack_flag h.isRequired
  rw [ofMembers, hisList, hisRequired, ReadsBack.has FieldKind.readsBack_decode h.kind,
    ReadsBack.has readsBack_text h.name, ReadsBack.has readsBack_text h.type]
  simp [present, bind, Except.bind, hlist, hrequired]

theorem Model.readsBack_decode : Model.decode.ReadsBack (Writing.object Model.IsWrittenIn) := by
  refine ReadsBack.object fun m o h => ?_
  obtain ⟨fields?, hfields, hdefault⟩ :=
    ReadsBack.hasOr (ReadsBack.list Field.readsBack_decode) h.fields
  rw [ofMembers, hfields, ReadsBack.has readsBack_text h.name]
  simp [present, bind, Except.bind, hdefault]

theorem EnumValue.readsBack_decode :
    EnumValue.decode.ReadsBack (Writing.object EnumValue.IsWrittenIn) := by
  refine ReadsBack.object fun v o h => ?_
  obtain ⟨dbName?, hdbName, hdefault⟩ :=
    ReadsBack.hasOr (ReadsBack.nullable readsBack_text nofun) h.dbName
  rw [ofMembers, hdbName, ReadsBack.has readsBack_text h.name]
  simp [present, bind, Except.bind, hdefault]

theorem Enumeration.readsBack_decode :
    Enumeration.decode.ReadsBack (Writing.object Enumeration.IsWrittenIn) := by
  refine ReadsBack.object fun e o h => ?_
  obtain ⟨values?, hvalues, hdefault⟩ :=
    ReadsBack.hasOr (ReadsBack.list EnumValue.readsBack_decode) h.values
  rw [ofMembers, hvalues, ReadsBack.has readsBack_text h.name]
  simp [present, bind, Except.bind, hdefault]

theorem Datamodel.readsBack_decode : Datamodel.decode.ReadsBack Datamodel.writing := by
  refine ReadsBack.object fun d o h => ?_
  obtain ⟨enums?, henums, hnoEnums⟩ :=
    ReadsBack.hasOr (ReadsBack.list Enumeration.readsBack_decode) h.enums
  obtain ⟨models?, hmodels, hnoModels⟩ :=
    ReadsBack.hasOr (ReadsBack.list Model.readsBack_decode) h.models
  rw [ofMembers, henums, hmodels]
  simp [bind, Except.bind, hnoEnums, hnoModels]

theorem Document.readsBack_decode : Document.decode.ReadsBack Document.writing := by
  refine ReadsBack.object fun d o h => ?_
  rw [ofMembers, ReadsBack.has Datamodel.readsBack_decode h]
  rfl

/-!
## Writing down

Everything can be written.
-/

namespace Writing

variable {α : Type} {w : Writing α}

def IsTotal (w : Writing α) : Prop :=
  forall a, exists j, w a j

theorem isTotal_text : text.IsTotal :=
  fun s => ⟨.string s, rfl⟩

theorem IsTotal.nullable (hw : w.IsTotal) : (Writing.nullable w).IsTotal := by
  intro a?
  cases a? with
  | none => exact ⟨.null, .nothing⟩
  | some a =>
      obtain ⟨j, ha⟩ := hw a
      exact ⟨j, .just ha⟩

theorem IsTotal.list (hw : w.IsTotal) : (Writing.list w).IsTotal := by
  intro as
  choose write hwrite using hw
  refine ⟨.array (as.map write), .items ?_⟩
  rw [List.forall₂_map_right_iff, List.forall₂_same]
  exact fun a _ => hwrite a

theorem isTotal_kind : FieldKind.writing.IsTotal := by
  intro kind
  cases kind <;> exact ⟨_, _, List.mem_cons_self, rfl⟩

theorem isTotal_field : (object Field.IsWrittenIn).IsTotal := by
  intro f
  obtain ⟨kind, hkind⟩ := isTotal_kind f.kind
  refine ⟨.object [("isList".toList, .bool f.isList), ("isRequired".toList, .bool f.isRequired),
    ("kind".toList, kind), ("name".toList, .string f.name), ("type".toList, .string f.type)], ⟨?_⟩⟩
  exact ⟨⟨_, rfl, rfl⟩, ⟨_, rfl, hkind⟩, ⟨_, rfl, rfl⟩, .inl ⟨_, rfl, rfl⟩, .inl ⟨_, rfl, rfl⟩⟩

theorem isTotal_model : (object Model.IsWrittenIn).IsTotal := by
  intro m
  obtain ⟨fields, hfields⟩ := IsTotal.list isTotal_field m.fields
  exact ⟨.object [("fields".toList, fields), ("name".toList, .string m.name)],
    ⟨⟨_, rfl, rfl⟩, .inl ⟨_, rfl, hfields⟩⟩⟩

theorem isTotal_enumValue : (object EnumValue.IsWrittenIn).IsTotal := by
  intro v
  obtain ⟨dbName, hdbName⟩ := IsTotal.nullable isTotal_text v.dbName
  exact ⟨.object [("dbName".toList, dbName), ("name".toList, .string v.name)],
    ⟨⟨_, rfl, rfl⟩, .inl ⟨_, rfl, hdbName⟩⟩⟩

theorem isTotal_enumeration : (object Enumeration.IsWrittenIn).IsTotal := by
  intro e
  obtain ⟨values, hvalues⟩ := IsTotal.list isTotal_enumValue e.values
  exact ⟨.object [("name".toList, .string e.name), ("values".toList, values)],
    ⟨⟨_, rfl, rfl⟩, .inl ⟨_, rfl, hvalues⟩⟩⟩

theorem isTotal_datamodel : Datamodel.writing.IsTotal := by
  intro d
  obtain ⟨enums, henums⟩ := IsTotal.list isTotal_enumeration d.enums
  obtain ⟨models, hmodels⟩ := IsTotal.list isTotal_model d.models
  exact ⟨.object [("enums".toList, enums), ("models".toList, models)],
    ⟨.inl ⟨_, rfl, hmodels⟩, .inl ⟨_, rfl, henums⟩⟩⟩

end Writing

/-!
## Datamodels, documents and payloads
-/

namespace Datamodel

/-- Every datamodel can be written, and whatever it is written as, it is read back: by itself,
in a document, and in a payload, which keeps the generator block that stands beside it. -/
theorem decode_written (d : Datamodel) :
    (exists j, Datamodel.writing d j) /\
      (forall j, Datamodel.writing d j -> Datamodel.decode j = .ok d) /\
      (forall j, Document.writing d j -> Document.decode j = .ok d) /\
      forall (o : Members) (generator? : Option GeneratorBlock),
        o.Has "dmmf" Document.writing d ->
        member? GeneratorBlock.decode "generator" o = .ok generator? ->
          Payload.decode (.object o) =
            .ok { generator := generator?.getD {}, datamodel := d } := by
  refine ⟨Writing.isTotal_datamodel d, Datamodel.readsBack_decode d, Document.readsBack_decode d, ?_⟩
  intro o generator? hdmmf hgenerator
  change Payload.ofMembers o = _
  rw [Payload.ofMembers, ReadsBack.has Document.readsBack_decode hdmmf, hgenerator]
  rfl

/-- A model with a field for another one, and an enumeration with a name in the database. -/
def engine : Datamodel :=
  { models :=
      [{ name := "User".toList
         fields :=
          [{ name := "id".toList, kind := .scalar, type := "Int".toList, isRequired := true },
            { name := "posts".toList, kind := .relation, type := "Post".toList, isList := true }] }]
    enums :=
      [{ name := "Role".toList
         values := [{ name := "ADMIN".toList }, { name := "USER".toList, dbName := some "user".toList }] }] }

/-- The document of an engine that tells more than is asked for, and leaves out some of it. -/
def engineDocument : Json :=
  .object
    [("datamodel".toList, .object
      [("enums".toList, .array [.object
        [("dbName".toList, .null), ("name".toList, .ofText "Role"),
          ("values".toList, .array
            [.object [("dbName".toList, .null), ("name".toList, .ofText "ADMIN")],
              .object [("dbName".toList, .ofText "user"), ("name".toList, .ofText "USER")]])]]),
        ("models".toList, .array [.object
          [("fields".toList, .array
            [.object
              [("isId".toList, .bool true), ("isList".toList, .bool false),
                ("isRequired".toList, .bool true), ("kind".toList, .ofText "scalar"),
                ("name".toList, .ofText "id"), ("type".toList, .ofText "Int")],
              .object
                [("isList".toList, .bool true), ("kind".toList, .ofText "relation"),
                  ("name".toList, .ofText "posts"), ("relationName".toList, .ofText "PostToUser"),
                  ("type".toList, .ofText "Post")]]),
            ("name".toList, .ofText "User"), ("primaryKey".toList, .null)]]),
        ("types".toList, .array [])]),
      ("mappings".toList, .null)]

theorem decode_written_engine :
    Document.writing engine engineDocument /\
      Payload.decode (.object [("dmmf".toList, engineDocument), ("version".toList, .ofText "5")]) =
        .ok { datamodel := engine } := by
  have hdocument : Document.writing engine engineDocument := by
    refine ⟨⟨_, rfl, ⟨⟨.inl ⟨_, rfl, ⟨.cons ⟨?model⟩ .nil⟩⟩, .inl ⟨_, rfl, ⟨.cons ⟨?enum⟩ .nil⟩⟩⟩⟩⟩⟩
    case model =>
      refine ⟨⟨_, rfl, rfl⟩, .inl ⟨_, rfl, ⟨.cons ⟨?id⟩ (.cons ⟨?posts⟩ .nil)⟩⟩⟩
      case id =>
        exact ⟨⟨_, rfl, rfl⟩, ⟨_, rfl, _, by decide, rfl⟩, ⟨_, rfl, rfl⟩, .inl ⟨_, rfl, rfl⟩,
          .inl ⟨_, rfl, rfl⟩⟩
      case posts =>
        exact ⟨⟨_, rfl, rfl⟩, ⟨_, rfl, _, by decide, rfl⟩, ⟨_, rfl, rfl⟩, .inr ⟨rfl, rfl⟩,
          .inl ⟨_, rfl, rfl⟩⟩
    case enum =>
      exact ⟨⟨_, rfl, rfl⟩, .inl ⟨_, rfl, ⟨.cons ⟨⟨_, rfl, rfl⟩, .inl ⟨_, rfl, .nothing⟩⟩
        (.cons ⟨⟨_, rfl, rfl⟩, .inl ⟨_, rfl, .just rfl⟩⟩ .nil)⟩⟩⟩
  obtain ⟨_, _, _, hpayload⟩ := decode_written engine
  exact ⟨hdocument, hpayload _ none ⟨_, rfl, hdocument⟩ rfl⟩

end Datamodel
end SchemaTypes
