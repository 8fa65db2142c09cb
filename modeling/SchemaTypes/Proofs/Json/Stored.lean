import Mathlib.Algebra.Group.Int.Defs
import SchemaTypes.Host.Request
import SchemaTypes.Payload
import SchemaTypes.Proofs.Decimal.Binary64
import SchemaTypes.Proofs.Steps

/-!
# Values as they are stored

Members are stored by key, each key once, and the integers of 64 bits are the only ones
that are stored as integers.  Every value that is read from a text is stored so, and so
is the configuration of every payload that is read.  A value that is read lies no deeper
than its reader goes.
-/

namespace SchemaTypes

/-!
## Members by key
-/

namespace Members

variable {o : Members} {key : List Char} {j : Json}

/-- The keys go up, so that each of them occurs once. -/
def IsSorted (o : Members) : Prop :=
  o.Pairwise fun a b => a.1 < b.1

theorem mem_put {entry : List Char × Json} (h : entry ∈ o.put key j) :
    entry = (key, j) \/ entry ∈ o := by
  induction o with
  | nil =>
      rw [put, List.mem_singleton] at h
      exact .inl h
  | cons first rest ih =>
      obtain ⟨k, v⟩ := first
      rw [put] at h
      split at h
      · rcases List.mem_cons.mp h with h | h
        · exact .inl h
        · exact .inr (List.mem_cons_of_mem _ h)
      · split at h
        · exact List.mem_cons.mp h
        · rcases List.mem_cons.mp h with h | h
          · exact .inr (h ▸ List.mem_cons_self)
          · exact (ih h).imp_right (List.mem_cons_of_mem _)

theorem IsSorted.put (h : o.IsSorted) (key : List Char) (j : Json) : (o.put key j).IsSorted := by
  induction o with
  | nil => exact List.pairwise_singleton _ _
  | cons first rest ih =>
      obtain ⟨k, v⟩ := first
      obtain ⟨hfirst, hrest⟩ := List.pairwise_cons.mp h
      rw [Members.put]
      split
      case isTrue hkey =>
        subst hkey
        exact List.pairwise_cons.mpr ⟨hfirst, hrest⟩
      case isFalse hkey =>
        split
        case isTrue hlt =>
          refine List.pairwise_cons.mpr ⟨?_, h⟩
          intro entry hentry
          rcases List.mem_cons.mp hentry with rfl | hentry
          · exact hlt
          · exact List.lt_trans hlt (hfirst entry hentry)
        case isFalse hlt =>
          have hgt : k < key := Std.lt_of_le_of_ne (Std.not_lt.mp hlt) (Ne.symm hkey)
          refine List.pairwise_cons.mpr ⟨?_, ih hrest⟩
          intro entry hentry
          rcases mem_put hentry with rfl | hentry
          · exact hgt
          · exact hfirst entry hentry

theorem mem_of_find? (h : o.find? key = some j) : (key, j) ∈ o := by
  induction o with
  | nil => cases h
  | cons first rest ih =>
      obtain ⟨k, v⟩ := first
      rw [find?] at h
      split at h
      · rename_i hkey
        cases h
        rw [hkey]
        exact List.mem_cons_self
      · exact List.mem_cons_of_mem _ (ih h)

theorem IsSorted.find?_eq_some (h : o.IsSorted) : o.find? key = some j <-> (key, j) ∈ o := by
  constructor
  · exact mem_of_find?
  · intro hmem
    induction o with
    | nil => cases hmem
    | cons first rest ih =>
        obtain ⟨k, v⟩ := first
        obtain ⟨hfirst, hrest⟩ := List.pairwise_cons.mp h
        rw [find?]
        rcases List.mem_cons.mp hmem with heq | hmem
        · cases heq
          rw [if_pos rfl]
        · have hne : key ≠ k := fun heq => List.lt_irrefl k (heq ▸ hfirst _ hmem)
          rw [if_neg hne]
          exact ih hrest hmem

end Members

/-!
## Stored values
-/

/-- An integer is one of 64 bits, with or without a sign. -/
def Number.IsStored : Number -> Prop
  | .integer n => -2 ^ 63 ≤ n /\ n < 2 ^ 64
  | .float _ => True

inductive Json.IsStored : Json -> Prop
  | null : IsStored .null
  | bool (b : Bool) : IsStored (.bool b)
  | number {n : Number} (h : n.IsStored) : IsStored (.number n)
  | string (s : List Char) : IsStored (.string s)
  | array {items : List Json} (h : forall j, j ∈ items -> j.IsStored) : IsStored (.array items)
  | object {o : Members} (hsorted : o.IsSorted) (h : forall entry, entry ∈ o -> entry.2.IsStored) :
      IsStored (.object o)

structure Members.IsStored (o : Members) : Prop where
  sorted : o.IsSorted
  values : forall entry, entry ∈ o -> entry.2.IsStored

theorem Members.isStored_nil : Members.IsStored [] where
  sorted := .nil
  values := fun _ hmem => nomatch hmem

theorem Members.IsStored.of_object {o : Members} (h : (Json.object o).IsStored) : o.IsStored := by
  cases h with
  | object hsorted hvalues => exact ⟨hsorted, hvalues⟩

theorem Members.IsStored.find? {o : Members} {key : List Char} {j : Json} (h : o.IsStored)
    (hfind : o.find? key = some j) : j.IsStored :=
  h.values _ (Members.mem_of_find? hfind)

/-!
## Values as they are read
-/

/-- An integer is one of 64 bits, and any other number one of the binary format. -/
def Number.IsReadable : Number -> Prop
  | .integer n => -2 ^ 63 ≤ n /\ n < 2 ^ 64
  | .float x => x.IsValid

theorem Number.IsReadable.isStored {n : Number} (h : n.IsReadable) : n.IsStored := by
  cases n with
  | integer n => exact h
  | float x => trivial

/-- Arrays and objects lie within each other at most so deep. -/
inductive Json.IsReadable : Nat -> Json -> Prop
  | null (depth : Nat) : IsReadable depth .null
  | bool (depth : Nat) (b : Bool) : IsReadable depth (.bool b)
  | number (depth : Nat) {n : Number} (h : n.IsReadable) : IsReadable depth (.number n)
  | string (depth : Nat) (s : List Char) : IsReadable depth (.string s)
  | array {depth : Nat} {items : List Json} (h : forall j, j ∈ items -> j.IsReadable depth) :
      IsReadable (depth + 1) (.array items)
  | object {depth : Nat} {o : Members} (h : forall entry, entry ∈ o -> entry.2.IsReadable depth) :
      IsReadable (depth + 1) (.object o)

/-- A property of all values without parts. -/
structure Json.HoldsOfPlain (P : Json -> Prop) : Prop where
  null : P .null
  bool : forall b, P (.bool b)
  number : forall n : Number, n.IsReadable -> P (.number n)
  string : forall s, P (.string s)

theorem Json.isStored_plain : HoldsOfPlain IsStored where
  null := .null
  bool := .bool
  number := fun _ h => .number h.isStored
  string := .string

theorem Json.isReadable_plain (depth : Nat) : HoldsOfPlain (IsReadable depth) where
  null := .null depth
  bool := .bool depth
  number := fun _ h => .number depth h
  string := .string depth

/-!
## What readers give
-/

theorem getD_of_forall {α : Type} {P : α -> Prop} {a? : Option α} {default : α}
    (hdefault : P default) (h : forall a, a? = some a -> P a) : P (a?.getD default) := by
  cases a? with
  | none => exact hdefault
  | some a => exact h a rfl

namespace Reader

def Gives {α : Type} (read : Reader α) (P : α -> Prop) : Prop :=
  forall s a rest, read s = .ok (a, rest) -> P a

theorem significandFrom_lt {n : Nat} (h : n < significandBound) (s : List Char) :
    (significandFrom n s).1 < significandBound := by
  induction s generalizing n with
  | nil => exact h
  | cons c rest ih =>
      rw [significandFrom]
      split
      · rename_i hroom
        rw [Bool.and_eq_true, decide_eq_true_eq] at hroom
        exact ih hroom.right
      · exact h

theorem readable_of_scaled {negative : Bool} {n : Nat} {e : Int} {left rest : List Char}
    {x : Number} (h : scaled negative n e left = .ok (x, rest)) : x.IsReadable := by
  unfold scaled at h
  split at h
  · rename_i hread
    cases h
    exact Decimal.Binary64.isValid_of_ofParts? hread
  · cases h

theorem readable_of_exponent {negative : Bool} {n : Nat} {e : Int} {s rest : List Char}
    {x : Number} (h : exponent negative n e s = .ok (x, rest)) : x.IsReadable := by
  unfold exponent at h
  split at h
  split at h
  · cases h
  · split at h
    · cases h
    · split at h
      · exact readable_of_scaled h
      · split at h
        · cases h
        · exact readable_of_scaled h

theorem readable_of_afterDigits {negative : Bool} {n : Nat} {e : Int} {s rest : List Char}
    {x : Number} (h : afterDigits negative n e s = .ok (x, rest)) : x.IsReadable := by
  unfold afterDigits at h
  split at h
  · exact readable_of_exponent h
  · exact readable_of_exponent h
  · exact readable_of_scaled h

theorem readable_of_fraction {negative : Bool} {n : Nat} {e : Int} {s rest : List Char}
    {x : Number} (h : fraction negative n e s = .ok (x, rest)) : x.IsReadable := by
  unfold fraction at h
  dsimp only at h
  split at h
  · exact readable_of_afterDigits h
  · split at h
    · split at h <;> cases h
    · exact readable_of_afterDigits h

theorem readable_of_whole {negative : Bool} {n : Nat} {left rest : List Char} {x : Number}
    (hn : n < significandBound) (h : whole negative n left = .ok (x, rest)) : x.IsReadable := by
  have hbound : significandBound = 2 ^ 64 := rfl
  have hhalf : 1 <<< 63 = 2 ^ 63 := rfl
  unfold whole at h
  split at h
  · split at h
    · exact readable_of_scaled h
    · rename_i hsmall
      cases h
      rw [Bool.or_eq_true, not_or, decide_eq_true_eq, decide_eq_true_eq, hhalf] at hsmall
      constructor <;> omega
  · cases h
    constructor <;> omega

theorem readable_of_afterWhole {negative : Bool} {n : Nat} {s rest : List Char} {x : Number}
    (hn : n < significandBound) (h : afterWhole negative n s = .ok (x, rest)) : x.IsReadable := by
  unfold afterWhole at h
  dsimp only at h
  split at h
  · exact readable_of_fraction h
  · exact readable_of_exponent h
  · exact readable_of_exponent h
  · split at h
    · exact readable_of_whole hn h
    · exact readable_of_scaled h

theorem gives_numeral (negative : Bool) : (numeral negative).Gives Number.IsReadable := by
  intro s x rest h
  unfold numeral at h
  split at h
  · cases h
  · split at h
    · cases h
    · exact readable_of_afterWhole (by decide) h
  · split at h
    · rename_i c _ _ hdigit
      have hbound : significandBound = 2 ^ 64 := rfl
      have hlow : Text.digit c < significandBound := by
        have hnine : c.toNat ≤ 57 := by
          simp only [Text.isDigit, Bool.and_eq_true, decide_eq_true_eq, Char.le_def,
            UInt32.le_iff_toNat_le] at hdigit
          exact hdigit.right
        rw [Text.digit]
        omega
      exact readable_of_afterWhole (significandFrom_lt hlow _) h
    · cases h

theorem gives_items {α : Type} {item : Reader α} {P : α -> Prop} (hitem : item.Gives P)
    (steps : Nat) (first : Bool) : (items item steps first).Gives fun xs => forall x, x ∈ xs -> P x := by
  induction steps generalizing first with
  | zero =>
      intro s xs rest h
      cases h
  | succ steps ih =>
      intro s xs rest h
      rw [items] at h
      obtain ⟨next, _, h⟩ := bind_eq_ok.mp h
      cases next with
      | close left =>
          cases h
          intro x hx
          cases hx
      | more left =>
          obtain ⟨⟨x, left⟩, hx, h⟩ := bind_eq_ok.mp h
          obtain ⟨⟨more, left⟩, hmore, h⟩ := bind_eq_ok.mp h
          cases h
          intro y hy
          rcases List.mem_cons.mp hy with rfl | hy
          · exact hitem _ _ _ hx
          · exact ih false _ _ _ hmore y hy

theorem gives_members {σ : Type} {step : σ -> List Char -> Reader σ} {P : σ -> Prop}
    (hstep : forall state key, P state -> (step state key).Gives P) (steps : Nat) (first : Bool)
    {state : σ} (hstate : P state) : (members step steps first state).Gives P := by
  induction steps generalizing first state with
  | zero =>
      intro s a rest h
      cases h
  | succ steps ih =>
      intro s a rest h
      rw [members] at h
      obtain ⟨next, _, h⟩ := bind_eq_ok.mp h
      cases next with
      | close left =>
          cases h
          exact hstate
      | more left =>
          obtain ⟨⟨key, left⟩, _, h⟩ := bind_eq_ok.mp h
          obtain ⟨⟨after, left⟩, hafter, h⟩ := bind_eq_ok.mp h
          exact ih false (hstep _ _ hstate _ _ _ hafter) _ _ _ h

/-- The members are sorted and have values of a kind. -/
def HasValues (P : Json -> Prop) (o : Members) : Prop :=
  o.IsSorted /\ forall entry, entry ∈ o -> P entry.2

theorem gives_memberInto {value : Reader Json} {P : Json -> Prop} (hvalue : value.Gives P)
    (o : Members) (key : List Char) (ho : HasValues P o) :
    (memberInto value o key).Gives (HasValues P) := by
  intro s a rest h
  obtain ⟨left, _, h⟩ := bind_eq_ok.mp h
  obtain ⟨⟨j, left⟩, hj, h⟩ := bind_eq_ok.mp h
  cases h
  constructor
  · exact ho.left.put key j
  · intro entry hentry
    rcases Members.mem_put hentry with rfl | hentry
    · exact hvalue _ _ _ hj
    · exact ho.right entry hentry

theorem holds_of_numeral {P : Json -> Prop} (hplain : Json.HoldsOfPlain P) {negative : Bool}
    {s rest : List Char} {j : Json}
    (h : (numeral negative s >>= fun x => .ok (Json.number x.1, x.2)) = .ok (j, rest)) : P j := by
  obtain ⟨⟨n, left⟩, hn, h⟩ := bind_eq_ok.mp h
  cases h
  exact hplain.number n (gives_numeral negative _ _ _ hn)

theorem gives_valueWith (steps : Nat) {nested? : Option (Reader Json)} {P : Json -> Prop}
    (hplain : Json.HoldsOfPlain P)
    (hnested : forall nested, nested? = some nested -> exists inside, nested.Gives inside /\
      (forall items, (forall j, j ∈ items -> inside j) -> P (.array items)) /\
      (forall o, HasValues inside o -> P (.object o))) :
    (valueWith steps nested?).Gives P := by
  intro s j rest h
  unfold valueWith at h
  split at h
  · cases h
  · obtain ⟨_, _, h⟩ := bind_eq_ok.mp h
    cases h
    exact hplain.null
  · obtain ⟨_, _, h⟩ := bind_eq_ok.mp h
    cases h
    exact hplain.bool true
  · obtain ⟨_, _, h⟩ := bind_eq_ok.mp h
    cases h
    exact hplain.bool false
  · exact holds_of_numeral hplain h
  · obtain ⟨_, _, h⟩ := bind_eq_ok.mp h
    cases h
    exact hplain.string _
  · split at h
    · cases h
    · rename_i nested
      obtain ⟨inside, hinside, harray, _⟩ := hnested nested rfl
      obtain ⟨⟨xs, left⟩, hxs, h⟩ := bind_eq_ok.mp h
      cases h
      exact harray xs (gives_items hinside _ _ _ _ _ hxs)
  · split at h
    · cases h
    · rename_i nested
      obtain ⟨inside, hinside, _, hobject⟩ := hnested nested rfl
      obtain ⟨⟨o, left⟩, ho, h⟩ := bind_eq_ok.mp h
      cases h
      have hempty : HasValues inside [] := ⟨.nil, fun _ hmem => nomatch hmem⟩
      exact hobject o (gives_members (gives_memberInto hinside) _ _ hempty _ _ _ ho)
  · split at h
    · exact holds_of_numeral hplain h
    · cases h

theorem gives_value (steps depth : Nat) : (value steps depth).Gives Json.IsStored := by
  induction depth with
  | zero => exact gives_valueWith steps Json.isStored_plain fun nested h => nomatch h
  | succ depth ih =>
      refine gives_valueWith steps Json.isStored_plain ?_
      rintro nested ⟨⟩
      exact ⟨_, ih, fun _ => .array, fun o ho => .object ho.left ho.right⟩

theorem gives_value_isReadable (steps depth : Nat) :
    (value steps depth).Gives (Json.IsReadable depth) := by
  induction depth with
  | zero => exact gives_valueWith steps (Json.isReadable_plain 0) fun nested h => nomatch h
  | succ depth ih =>
      apply gives_valueWith steps (Json.isReadable_plain (depth + 1))
      intro nested h
      cases h
      exact ⟨_, ih, fun _ => .array, fun o ho => .object ho.right⟩

theorem of_run {α : Type} {read : Nat -> Reader α} {P : α -> Prop}
    (h : forall steps, (read steps).Gives P) {s : List Char} {a : α} (hrun : run read s = .ok a) :
    P a := by
  unfold run at hrun
  split at hrun
  · rename_i honly
    cases hrun
    obtain ⟨⟨b, rest⟩, hread, hend⟩ := bind_eq_ok.mp honly
    dsimp only at hend
    split at hend
    · cases hend
      exact h _ _ _ _ hread
    · cases hend
  · cases hrun

end Reader

theorem Json.stored_of_parse {s : List Char} {j : Json} (h : Json.parse s = .ok j) : j.IsStored :=
  Reader.of_run (fun steps => Reader.gives_value steps _) h

/-!
## Requests
-/

namespace Request

open Reader

/-- The params and the id that have been read are of a kind. -/
def Parts.Holds (P : Json -> Prop) (p : Parts) : Prop :=
  (forall j, p.params = some j -> P j) /\ forall j, p.id = some j -> P j

theorem gives_readField {α : Type} {name : String} {earlier : Option α} {read : Reader α}
    {P : α -> Prop} (h : read.Gives P) : (readField name earlier read).Gives P := by
  intro s a rest hread
  unfold readField at hread
  split at hread
  · split at hread <;> cases hread
  · obtain ⟨left, _, hread⟩ := bind_eq_ok.mp hread
    exact h _ _ _ hread

section

variable {P : Json -> Prop} {steps : Nat}

theorem gives_readMember (hpart : (partValue steps).Gives P) (p : Parts) (key : List Char)
    (hp : p.Holds P) : (readMember steps p key).Gives (Parts.Holds P) := by
  intro s q rest h
  unfold readMember at h
  split at h
  · obtain ⟨_, _, h⟩ := bind_eq_ok.mp h
    cases h
    exact hp
  · obtain ⟨_, _, h⟩ := bind_eq_ok.mp h
    cases h
    exact hp
  · obtain ⟨⟨v, left⟩, hv, h⟩ := bind_eq_ok.mp h
    cases h
    constructor
    · intro j hj
      cases hj
      exact gives_readField hpart _ _ _ hv
    · exact hp.right
  · obtain ⟨⟨v, left⟩, hv, h⟩ := bind_eq_ok.mp h
    cases h
    constructor
    · exact hp.left
    · intro j hj
      cases hj
      exact gives_readField hpart _ _ _ hv
  · obtain ⟨_, _, h⟩ := bind_eq_ok.mp h
    obtain ⟨_, _, h⟩ := bind_eq_ok.mp h
    cases h
    exact hp

theorem holds_of_readItem {read : Reader Json} (h : read.Gives P) {first : Bool}
    {s : List Char} {j? : Option Json} {next : Next}
    (hread : readItem read first s = .ok (j?, next)) : forall j, j? = some j -> P j := by
  obtain ⟨item, _, hread⟩ := bind_eq_ok.mp hread
  cases item with
  | close left =>
      cases hread
      exact fun _ hnone => nomatch hnone
  | more left =>
      obtain ⟨⟨a, left⟩, ha, hread⟩ := bind_eq_ok.mp hread
      cases hread
      rintro j ⟨⟩
      exact h _ _ _ ha

theorem holds_of_readLater {read : Reader Json} (h : read.Gives P) {last next : Next}
    {j? : Option Json} (hread : readLater read last = .ok (j?, next)) :
    forall j, j? = some j -> P j := by
  cases last with
  | close left =>
      cases hread
      exact fun _ hnone => nomatch hnone
  | more left => exact holds_of_readItem h hread

theorem failKind_ne_ok {α : Type} (steps : Nat) (wanted : Wanted) (s : List Char)
    (r : α × List Char) : failKind (α := α × List Char) steps wanted s ≠ .ok r := by
  intro h
  unfold failKind failShape at h
  split at h
  · obtain ⟨_, _, h⟩ := bind_eq_ok.mp h
    cases h
  · obtain ⟨_, _, h⟩ := bind_eq_ok.mp h
    cases h
  · obtain ⟨_, _, h⟩ := bind_eq_ok.mp h
    cases h
  · obtain ⟨_, _, h⟩ := bind_eq_ok.mp h
    cases h
  · obtain ⟨_, _, h⟩ := bind_eq_ok.mp h
    cases h
  · cases h
  · cases h
  · split at h
    · obtain ⟨_, _, h⟩ := bind_eq_ok.mp h
      cases h
    · cases h

theorem gives_reader (hnull : P .null) (hpart : (partValue steps).Gives P) :
    (reader steps).Gives fun r => P r.params /\ P r.id := by
  intro s r rest h
  unfold reader at h
  split at h
  · cases h
  · obtain ⟨⟨p, left⟩, hp, h⟩ := bind_eq_ok.mp h
    have hempty : Parts.Holds P {} := by
      constructor
      · exact fun _ hnone => nomatch hnone
      · exact fun _ hnone => nomatch hnone
    have hholds := gives_members (gives_readMember hpart) _ _ hempty _ _ _ hp
    dsimp only at h
    split at h
    · cases h
    · cases h
      exact ⟨getD_of_forall hnull hholds.left, getD_of_forall hnull hholds.right⟩
  · obtain ⟨⟨version, next⟩, _, h⟩ := bind_eq_ok.mp h
    obtain ⟨⟨method, next⟩, _, h⟩ := bind_eq_ok.mp h
    dsimp only at h
    split at h
    · cases h
    · cases h
    · obtain ⟨⟨params, next⟩, hparams, h⟩ := bind_eq_ok.mp h
      obtain ⟨⟨id, next⟩, hid, h⟩ := bind_eq_ok.mp h
      obtain ⟨_, _, h⟩ := bind_eq_ok.mp h
      cases h
      exact ⟨getD_of_forall hnull (holds_of_readLater hpart hparams),
        getD_of_forall hnull (holds_of_readLater hpart hid)⟩
  · exact absurd h (failKind_ne_ok _ _ _ _)

end

theorem stored_of_parse {line : List Char} {r : Request} (h : Request.parse line = .ok r) :
    r.params.IsStored :=
  (of_run (fun steps => gives_reader .null (gives_value steps _)) h).left

theorem isReadable_of_parse {line : List Char} {r : Request} (h : Request.parse line = .ok r) :
    r.id.IsReadable (greatestDepth - 1) :=
  (of_run (fun steps => gives_reader (.null _) (gives_value_isReadable steps _)) h).right

end Request

/-!
## Payloads
-/

namespace Decoder

variable {α : Type} {d : Decoder α} {P : α -> Prop}

/-- What is decoded from a stored value is such a value. -/
def Keeps (d : Decoder α) (P : α -> Prop) : Prop :=
  forall j a, j.IsStored -> d j = .ok a -> P a

theorem keeps_map : map.Keeps Members.IsStored := by
  intro j o hj h
  cases j with
  | object members =>
      cases h
      exact .of_object hj
  | _ => cases h

theorem map_some_eq_ok {ε β : Type} {x : Except ε β} {b? : Option β}
    (h : x.map some = .ok b?) : exists b, x = .ok b /\ b? = some b := by
  cases x with
  | ok b =>
      cases h
      exact ⟨b, rfl, rfl⟩
  | error e => cases h

theorem Keeps.member? (hd : d.Keeps P) {key : String} {o : Members} (ho : o.IsStored)
    {a? : Option α} (h : member? d key o = .ok a?) : forall a, a? = some a -> P a := by
  unfold Decoder.member? at h
  split at h
  · rename_i j hfind
    obtain ⟨b, hb, rfl⟩ := map_some_eq_ok h
    rintro _ ⟨⟩
    exact hd j b (ho.find? hfind) hb
  · cases h
    exact fun _ hnone => nomatch hnone

theorem Keeps.item? (hd : d.Keeps P) {index : Nat} {items : List Json}
    (hitems : forall j, j ∈ items -> j.IsStored) {a? : Option α}
    (h : item? d index items = .ok a?) : forall a, a? = some a -> P a := by
  unfold Decoder.item? at h
  split at h
  · rename_i j hitem
    obtain ⟨b, hb, rfl⟩ := map_some_eq_ok h
    rintro _ ⟨⟩
    exact hd j b (hitems j (List.mem_of_getElem? hitem)) hb
  · cases h
    exact fun _ hnone => nomatch hnone

theorem Keeps.record {name : String} {ofMembers : Members -> Except ShapeFault α}
    {ofItems : List Json -> Except ShapeFault α}
    (hmembers : forall o a, o.IsStored -> ofMembers o = .ok a -> P a)
    (hitems : forall items a, (forall j, j ∈ items -> j.IsStored) -> ofItems items = .ok a -> P a) :
    (record name ofMembers ofItems).Keeps P := by
  intro j a hj h
  cases hj with
  | object hsorted hvalues => exact hmembers _ a ⟨hsorted, hvalues⟩ h
  | array hstored => exact hitems _ a hstored h
  | _ => cases h

end Decoder

open Decoder

theorem GeneratorBlock.keeps_decode :
    GeneratorBlock.decode.Keeps fun g => g.config.IsStored := by
  refine Keeps.record ?_ ?_
  · intro o g ho h
    obtain ⟨config?, hconfig, h⟩ := bind_eq_ok.mp h
    obtain ⟨name?, _, h⟩ := bind_eq_ok.mp h
    obtain ⟨output?, _, h⟩ := bind_eq_ok.mp h
    cases h
    exact getD_of_forall Members.isStored_nil (keeps_map.member? ho hconfig)
  · intro items g hitems h
    obtain ⟨name?, _, h⟩ := bind_eq_ok.mp h
    obtain ⟨output?, _, h⟩ := bind_eq_ok.mp h
    obtain ⟨config?, hconfig, h⟩ := bind_eq_ok.mp h
    obtain ⟨_, _, h⟩ := bind_eq_ok.mp h
    cases h
    exact getD_of_forall Members.isStored_nil (keeps_map.item? hitems hconfig)

namespace Payload

theorem keeps_decode : Payload.decode.Keeps fun p => p.generator.config.IsStored := by
  have hdefault : ({} : GeneratorBlock).config.IsStored := Members.isStored_nil
  refine Keeps.record ?_ ?_
  · intro o p ho h
    obtain ⟨datamodel?, _, h⟩ := bind_eq_ok.mp h
    obtain ⟨generator?, hgenerator, h⟩ := bind_eq_ok.mp h
    cases h
    exact getD_of_forall (P := fun g : GeneratorBlock => g.config.IsStored) hdefault
      (GeneratorBlock.keeps_decode.member? ho hgenerator)
  · intro items p hitems h
    obtain ⟨generator?, hgenerator, h⟩ := bind_eq_ok.mp h
    obtain ⟨datamodel?, _, h⟩ := bind_eq_ok.mp h
    obtain ⟨_, _, h⟩ := bind_eq_ok.mp h
    cases h
    exact getD_of_forall (P := fun g : GeneratorBlock => g.config.IsStored) hdefault
      (GeneratorBlock.keeps_decode.item? hitems hgenerator)

theorem stored_of_request {line : List Char} {r : Request} {p : Payload}
    (hr : Request.parse line = .ok r) (h : Payload.decode r.params = .ok p) :
    p.generator.config.IsStored :=
  keeps_decode _ _ (Request.stored_of_parse hr) h

/-- A file holds a payload whose configuration is stored as values are. -/
theorem stored_of_read {s : List Char} {p : Payload} (h : Payload.read s = .ok p) :
    p.generator.config.IsStored := by
  unfold read at h
  split at h
  · cases h
  · rename_i j hj
    split at h
    · cases h
    · rename_i q hq
      cases h
      unfold ofJson at hq
      split at hq
      · exact keeps_decode _ _ (Json.stored_of_parse hj) hq
      · dsimp only at hq
        split at hq
        · obtain ⟨_, _, hq⟩ := bind_eq_ok.mp hq
          cases hq
          exact Members.isStored_nil
        · obtain ⟨_, _, hq⟩ := bind_eq_ok.mp hq
          cases hq
          exact Members.isStored_nil

end Payload

end SchemaTypes
