import SchemaTypes.Proofs.Json.Stored
import SchemaTypes.Proofs.Settings
import SchemaTypes.Proofs.Text.Word

/-!
# What the value of a key stands for

A file name is any text, a width is a positive integer of 64 bits or a text that spells
one, and a line ending is a name whose letters may be large or small.  A value that
stands for nothing of the kind is refused, and told as it is printed.
-/

namespace SchemaTypes

/-!
## Meanings
-/

namespace Json

inductive IsText : Json -> List Char -> Prop
  | text (s : List Char) : IsText (.string s) s

inductive IsWidth : Json -> Nat -> Prop
  | number {n : Nat} (hpositive : 1 ≤ n) (hbound : n < 2 ^ 64) : IsWidth (.number (.integer n)) n
  | text {s : List Char} {n : Nat} (hpositive : 1 ≤ n) (hbound : n < 2 ^ 64)
      (hs : Text.SpellsNumber s n) : IsWidth (.string s) n

inductive IsLineEnding : Json -> EndOfLine -> Prop
  | text {s : List Char} {e : EndOfLine} (hs : s.map Char.toLower = e.name.toList) :
      IsLineEnding (.string s) e

end Json

inductive RefusesEnding : Json -> InvalidValue -> Prop
  | notText {j : Json} (h : forall s, ¬ j.IsText s) : RefusesEnding j (.notString j.compact)
  | unknown {s : List Char} (h : forall e, ¬ (Json.string s).IsLineEnding e) :
      RefusesEnding (.string s) (.notLineEnding s)

/-!
## Readings
-/

inductive Reads {α : Type} (means : Json -> α -> Prop) (refuses : Json -> InvalidValue -> Prop)
    (key : List Char) (j : Json) : Except SettingsError α -> Prop
  | taken {a : α} (ha : means j a) : Reads means refuses key j (.ok a)
  | refused {fault : InvalidValue} (hnone : forall a, ¬ means j a) (hfault : refuses j fault) :
      Reads means refuses key j (.error (.invalidValue key fault))

theorem reads_stringValue (key : List Char) (j : Json) :
    Reads Json.IsText (fun j fault => fault = .notString j.compact) key j (stringValue key j) := by
  cases j with
  | string s => exact .taken (.text s)
  | _ => exact .refused (fun s h => nomatch h) rfl

theorem wordOfJson?_eq_some {j : Json} (hj : j.IsStored) {n : Nat} (hpositive : 1 ≤ n) :
    wordOfJson? j = some n <-> j.IsWidth n := by
  constructor
  · intro h
    unfold wordOfJson? at h
    split at h
    · rename_i m
      obtain ⟨_, hbound⟩ : Number.IsStored (.integer m) := by
        cases hj with
        | number hn => exact hn
      split at h
      · rename_i hnonneg
        cases h
        have hsame := Json.IsWidth.number hpositive (by omega)
        rwa [Int.toNat_of_nonneg hnonneg] at hsame
      · cases h
    · obtain ⟨hs, hbound⟩ := Text.word?_trim_eq_some.mp h
      exact .text hpositive hbound hs
    · cases h
  · intro h
    cases h with
    | number _ _ => simp [wordOfJson?]
    | text _ hbound hs => exact Text.word?_trim_eq_some.mpr ⟨hs, hbound⟩

theorem reads_positiveValue (key : List Char) {j : Json} (hj : j.IsStored) :
    Reads Json.IsWidth (fun j fault => fault = .notPositive j.compact) key j
      (positiveValue key j) := by
  unfold positiveValue
  split
  · rename_i n hword
    exact .taken ((wordOfJson?_eq_some hj (Nat.succ_pos n)).mp hword)
  · rename_i hnone
    refine .refused ?_ rfl
    intro n hn
    have hpositive : 1 ≤ n := by
      cases hn <;> assumption
    obtain ⟨m, rfl⟩ := Nat.exists_eq_add_of_le' hpositive
    exact hnone m ((wordOfJson?_eq_some hj hpositive).mpr hn)

theorem ofName?_eq_some {s : List Char} {e : EndOfLine} :
    EndOfLine.ofName? (String.ofList s) = some e <-> s.map Char.toLower = e.name.toList := by
  rw [EndOfLine.ofName?, String.toList_ofList]
  generalize s.map Char.toLower = lower
  constructor
  · intro h
    have hsame := List.find?_some h
    rw [beq_iff_eq] at hsame
    exact hsame.symm
  · rintro rfl
    cases e <;> decide

theorem reads_lineEndingValue (key : List Char) (j : Json) :
    Reads Json.IsLineEnding RefusesEnding key j (lineEndingValue key j) := by
  cases j with
  | string s =>
      cases hname : EndOfLine.ofName? (String.ofList s) with
      | some e =>
          have hvalue : lineEndingValue key (.string s) = .ok e :=
            bind_eq_ok.mpr ⟨s, rfl, by rw [hname]⟩
          rw [hvalue]
          exact .taken (.text (ofName?_eq_some.mp hname))
      | none =>
          have hvalue : lineEndingValue key (.string s) =
              .error (.invalidValue key (.notLineEnding s)) :=
            bind_eq_error.mpr (.inr ⟨s, rfl, by rw [hname]⟩)
          have hunknown : forall e, ¬ (Json.string s).IsLineEnding e := by
            rintro e ⟨he⟩
            rw [ofName?_eq_some.mpr he] at hname
            cases hname
          rw [hvalue]
          exact .refused hunknown (.unknown hunknown)
  | _ => exact .refused (fun e h => nomatch h) (.notText fun s h => nomatch h)

/-!
## Values stand for one thing at most
-/

theorem Reads.eq_ok {α : Type} {means : Json -> α -> Prop} {refuses : Json -> InvalidValue -> Prop}
    {key : List Char} {j : Json} {x : Except SettingsError α} (h : Reads means refuses key j x)
    (hunique : forall a b, means j a -> means j b -> a = b) {a : α} (ha : means j a) :
    x = .ok a := by
  cases h with
  | taken hb => rw [hunique _ _ hb ha]
  | refused hnone _ => exact absurd ha (hnone a)

namespace Json

theorem IsText.unique {j : Json} {s t : List Char} (hs : j.IsText s) (ht : j.IsText t) :
    s = t := by
  cases hs
  cases ht
  rfl

theorem IsWidth.unique {j : Json} {m n : Nat} (hm : j.IsWidth m) (hn : j.IsWidth n) : m = n := by
  cases hm with
  | number _ _ =>
      cases hn
      rfl
  | text _ hbound hs =>
      cases hn with
      | text _ hbound' hs' => exact hs.unique hs' hbound hbound'

theorem IsLineEnding.unique {j : Json} {d e : EndOfLine} (hd : j.IsLineEnding d)
    (he : j.IsLineEnding e) : d = e := by
  cases hd with
  | text hs =>
      cases he with
      | text hs' =>
          have hname := hs.symm.trans hs'
          revert hname
          cases d <;> cases e <;> decide

end Json

end SchemaTypes
