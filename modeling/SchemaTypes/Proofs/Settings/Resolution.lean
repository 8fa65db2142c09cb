import SchemaTypes.Proofs.Settings.Values
import SchemaTypes.Text.Utf8

/-!
# Where settings come from

Each part of the settings is given by the caller, or else is what the value of its key
stands for, or else has a default.  Every key is looked at, also one whose part the
caller gives, and the first one that is refused, in the order of the bytes of the keys,
is what the settings fail for.
-/

namespace SchemaTypes

/-!
## Keys

A key has values of its own kind and a part of the settings that it sets.
-/

inductive SettingsKey where
  | endOfLine
  | fileName
  | printWidth
  | tabWidth
  deriving DecidableEq, Repr, Inhabited

namespace SettingsKey

def name : SettingsKey -> List Char
  | endOfLine => "endOfLine".toList
  | fileName => "fileName".toList
  | printWidth => "printWidth".toList
  | tabWidth => "tabWidth".toList

def Value : SettingsKey -> Type
  | endOfLine => EndOfLine
  | fileName => List Char
  | printWidth => Nat
  | tabWidth => Nat

def Means : (k : SettingsKey) -> Json -> k.Value -> Prop
  | endOfLine => Json.IsLineEnding
  | fileName => Json.IsText
  | printWidth => Json.IsWidth
  | tabWidth => Json.IsWidth

def Fault : SettingsKey -> Json -> InvalidValue -> Prop
  | endOfLine => RefusesEnding
  | fileName => fun j fault => fault = .notString j.compact
  | printWidth => fun j fault => fault = .notPositive j.compact
  | tabWidth => fun j fault => fault = .notPositive j.compact

def Refuses (k : SettingsKey) (j : Json) (fault : InvalidValue) : Prop :=
  (forall v, ¬ k.Means j v) /\ k.Fault j fault

def read : (k : SettingsKey) -> Json -> Except SettingsError k.Value
  | endOfLine, j => lineEndingValue endOfLine.name j
  | fileName, j => stringValue fileName.name j
  | printWidth, j => positiveValue printWidth.name j
  | tabWidth, j => positiveValue tabWidth.name j

theorem reads_read (k : SettingsKey) {j : Json} (hj : j.IsStored) :
    Reads k.Means k.Fault k.name j (k.read j) := by
  cases k with
  | endOfLine => exact reads_lineEndingValue _ j
  | fileName => exact reads_stringValue _ j
  | printWidth => exact reads_positiveValue _ hj
  | tabWidth => exact reads_positiveValue _ hj

theorem Means.unique {k : SettingsKey} {j : Json} {v w : k.Value} (hv : k.Means j v)
    (hw : k.Means j w) : v = w := by
  cases k with
  | endOfLine => exact Json.IsLineEnding.unique hv hw
  | fileName => exact Json.IsText.unique hv hw
  | printWidth => exact Json.IsWidth.unique hv hw
  | tabWidth => exact Json.IsWidth.unique hv hw

def part : (k : SettingsKey) -> Settings -> k.Value
  | endOfLine, s => s.format.endOfLine
  | fileName, s => s.fileName
  | printWidth, s => s.format.printWidth
  | tabWidth, s => s.format.tabWidth

def withPart : (k : SettingsKey) -> Settings -> k.Value -> Settings
  | endOfLine, s, e => { s with format := { s.format with endOfLine := e } }
  | fileName, s, name => { s with fileName := name }
  | printWidth, s, n => { s with format := { s.format with printWidth := n } }
  | tabWidth, s, n => { s with format := { s.format with tabWidth := n } }

variable (k : SettingsKey) (s : Settings)

@[simp] theorem part_withPart (v : k.Value) : k.part (k.withPart s v) = v := by
  cases k <;> rfl

theorem part_withPart_of_ne {k l : SettingsKey} (h : l ≠ k) (s : Settings) (v : k.Value) :
    l.part (k.withPart s v) = l.part s := by
  cases k <;> cases l <;> first | rfl | exact absurd rfl h

@[simp] theorem directory_withPart (v : k.Value) : (k.withPart s v).directory = s.directory := by
  cases k <;> rfl

theorem name_injective {k l : SettingsKey} (h : k.name = l.name) : k = l := by
  revert h
  cases k <;> cases l <;> decide

theorem encode_name_lt (k l : SettingsKey) :
    Text.encode k.name < Text.encode l.name <-> k.name < l.name := by
  cases k <;> cases l <;> decide

theorem isKnownKey_iff {key : List Char} :
    Settings.isKnownKey key = true <-> exists k : SettingsKey, key = k.name := by
  simp only [Settings.isKnownKey, List.any_cons, List.any_nil, Bool.or_false, Bool.or_eq_true,
    beq_iff_eq]
  constructor
  · rintro (h | h | h | h)
    · exact ⟨fileName, h.symm⟩
    · exact ⟨printWidth, h.symm⟩
    · exact ⟨tabWidth, h.symm⟩
    · exact ⟨endOfLine, h.symm⟩
  · rintro ⟨k, rfl⟩
    cases k with
    | fileName => exact .inl rfl
    | printWidth => exact .inr (.inl rfl)
    | tabWidth => exact .inr (.inr (.inl rfl))
    | endOfLine => exact .inr (.inr (.inr rfl))

end SettingsKey

/-!
## Taking one key
-/

namespace Settings

variable {s t : Settings} {key : List Char} {j : Json}

theorem eq_of_ofList {name : String} (h : String.ofList key = name) : key = name.toList := by
  rw [← h, String.toList_ofList]

theorem takeKey_other (h : isKnownKey key = false) (s : Settings) (j : Json) :
    s.takeKey key j = .ok s := by
  have hne : forall k : SettingsKey, key ≠ k.name := by
    intro k heq
    rw [SettingsKey.isKnownKey_iff.mpr ⟨k, heq⟩] at h
    cases h
  unfold takeKey
  split
  · rename_i heq
    exact absurd (eq_of_ofList heq) (hne .fileName)
  · rename_i heq
    exact absurd (eq_of_ofList heq) (hne .printWidth)
  · rename_i heq
    exact absurd (eq_of_ofList heq) (hne .tabWidth)
  · rename_i heq
    exact absurd (eq_of_ofList heq) (hne .endOfLine)
  · rfl

theorem takeKey_name (s : Settings) (k : SettingsKey) (j : Json) :
    s.takeKey k.name j = k.read j >>= fun v => .ok (k.withPart s v) := by
  cases k <;> rfl

theorem takeKey_name_cases (s : Settings) (k : SettingsKey) (hj : j.IsStored) :
    (exists v, k.Means j v /\ s.takeKey k.name j = .ok (k.withPart s v)) \/
      exists f, k.Refuses j f /\ s.takeKey k.name j = .error (.invalidValue k.name f) := by
  have hread := k.reads_read hj
  rw [takeKey_name]
  generalize k.read j = x at hread ⊢
  cases hread with
  | taken hv => exact .inl ⟨_, hv, rfl⟩
  | refused hnone hfault => exact .inr ⟨_, ⟨hnone, hfault⟩, rfl⟩

def RefusesAt (key : List Char) (j : Json) (fault : InvalidValue) : Prop :=
  exists k : SettingsKey, key = k.name /\ k.Refuses j fault

theorem takeKey_cases (s : Settings) (key : List Char) (hj : j.IsStored) :
    ((exists t, s.takeKey key j = .ok t) /\ forall f, ¬ RefusesAt key j f) \/
      exists f, s.takeKey key j = .error (.invalidValue key f) /\ RefusesAt key j f := by
  by_cases hknown : isKnownKey key = true
  · obtain ⟨k, rfl⟩ := SettingsKey.isKnownKey_iff.mp hknown
    rcases takeKey_name_cases s k hj with ⟨v, hv, htaken⟩ | ⟨f, hrefuses, hrefused⟩
    · refine .inl ⟨⟨_, htaken⟩, ?_⟩
      rintro f ⟨l, hname, hrefuses⟩
      cases SettingsKey.name_injective hname
      exact hrefuses.left v hv
    · exact .inr ⟨f, hrefused, k, rfl, hrefuses⟩
  · refine .inl ⟨⟨s, takeKey_other (Bool.not_eq_true _ ▸ hknown) s j⟩, ?_⟩
    rintro f ⟨k, hname, _⟩
    exact hknown (SettingsKey.isKnownKey_iff.mpr ⟨k, hname⟩)

theorem part_takeKey (hj : j.IsStored) (h : s.takeKey key j = .ok t) (k : SettingsKey) :
    (key = k.name /\ k.Means j (k.part t)) \/ (key ≠ k.name /\ k.part t = k.part s) := by
  by_cases hknown : isKnownKey key = true
  · obtain ⟨l, rfl⟩ := SettingsKey.isKnownKey_iff.mp hknown
    rcases takeKey_name_cases s l hj with ⟨v, hv, htaken⟩ | ⟨f, _, hrefused⟩
    · rw [htaken] at h
      cases h
      by_cases hkey : k = l
      · subst hkey
        exact .inl ⟨rfl, by rwa [SettingsKey.part_withPart]⟩
      · refine .inr ⟨fun hname => hkey (SettingsKey.name_injective hname).symm, ?_⟩
        exact SettingsKey.part_withPart_of_ne hkey s v
    · rw [hrefused] at h
      cases h
  · rw [Bool.not_eq_true] at hknown
    rw [takeKey_other hknown] at h
    cases h
    refine .inr ⟨?_, rfl⟩
    intro hname
    rw [SettingsKey.isKnownKey_iff.mpr ⟨k, hname⟩] at hknown
    cases hknown

theorem directory_takeKey (h : s.takeKey key j = .ok t) : t.directory = s.directory := by
  by_cases hknown : isKnownKey key = true
  · obtain ⟨k, rfl⟩ := SettingsKey.isKnownKey_iff.mp hknown
    rw [takeKey_name] at h
    obtain ⟨v, _, hv⟩ := bind_eq_ok.mp h
    cases hv
    exact k.directory_withPart s v
  · rw [takeKey_other (Bool.not_eq_true _ ▸ hknown)] at h
    cases h
    rfl

/-!
## Taking all keys
-/

variable {o : Members}

theorem directory_takeKeys (h : s.takeKeys o = .ok t) : t.directory = s.directory := by
  induction o generalizing s with
  | nil =>
      cases h
      rfl
  | cons entry rest ih =>
      obtain ⟨next, hnext, hrest⟩ := bind_eq_ok.mp h
      exact (ih hrest).trans (directory_takeKey hnext)

theorem part_takeKeys (ho : forall entry, entry ∈ o -> entry.2.IsStored)
    (h : s.takeKeys o = .ok t) (k : SettingsKey) :
    (exists j, (k.name, j) ∈ o /\ k.Means j (k.part t)) \/
      ((forall j, (k.name, j) ∉ o) /\ k.part t = k.part s) := by
  induction o generalizing s with
  | nil =>
      cases h
      exact .inr ⟨fun j => List.not_mem_nil, rfl⟩
  | cons entry rest ih =>
      obtain ⟨key, j⟩ := entry
      obtain ⟨next, hnext, hrest⟩ := bind_eq_ok.mp h
      rcases ih (fun e he => ho e (List.mem_cons_of_mem _ he)) hrest with
        ⟨later, hlater, hmeans⟩ | ⟨hnone, hkept⟩
      · exact .inl ⟨later, List.mem_cons_of_mem _ hlater, hmeans⟩
      · rw [hkept]
        rcases part_takeKey (ho _ List.mem_cons_self) hnext k with
          ⟨rfl, hmeans⟩ | ⟨hother, hsame⟩
        · exact .inl ⟨j, List.mem_cons_self, hmeans⟩
        · refine .inr ⟨?_, hsame⟩
          intro j' hmem
          rcases List.mem_cons.mp hmem with heq | hmem
          · exact hother (congrArg Prod.fst heq).symm
          · exact hnone j' hmem

theorem takeKeys_cases (s : Settings) (ho : forall entry, entry ∈ o -> entry.2.IsStored) :
    ((exists t, s.takeKeys o = .ok t) /\
        forall key j fault, (key, j) ∈ o -> ¬ RefusesAt key j fault) \/
      exists before key j after fault, o = before ++ (key, j) :: after /\
        (forall key j fault, (key, j) ∈ before -> ¬ RefusesAt key j fault) /\
        RefusesAt key j fault /\ s.takeKeys o = .error (.invalidValue key fault) := by
  induction o generalizing s with
  | nil => exact .inl ⟨⟨s, rfl⟩, fun key j fault hmem => absurd hmem List.not_mem_nil⟩
  | cons entry rest ih =>
      obtain ⟨key, j⟩ := entry
      rcases takeKey_cases s key (ho _ List.mem_cons_self) with
        ⟨⟨next, hnext⟩, hkept⟩ | ⟨fault, herror, hrefuses⟩
      · have hrun : s.takeKeys ((key, j) :: rest) = next.takeKeys rest := by
          rw [takeKeys, hnext]
          rfl
        have hall : forall {entries : Members},
            (forall key j fault, (key, j) ∈ entries -> ¬ RefusesAt key j fault) ->
            forall key' j' fault, (key', j') ∈ (key, j) :: entries ->
              ¬ RefusesAt key' j' fault := by
          intro entries hentries key' j' fault hmem
          rcases List.mem_cons.mp hmem with heq | hmem
          · cases heq
            exact hkept fault
          · exact hentries key' j' fault hmem
        rw [hrun]
        rcases ih next fun e he => ho e (List.mem_cons_of_mem _ he) with
          ⟨hok, hnone⟩ | ⟨before, key', j', after, fault, rfl, hbefore, hrefuses, herror⟩
        · exact .inl ⟨hok, hall hnone⟩
        · exact .inr ⟨(key, j) :: before, key', j', after, fault, rfl, hall hbefore, hrefuses,
            herror⟩
      · refine .inr ⟨[], key, j, rest, fault, rfl,
          fun key j fault hmem => absurd hmem List.not_mem_nil, hrefuses, ?_⟩
        rw [takeKeys, herror]
        rfl

theorem takeKeys_filter (s : Settings) (o : Members) :
    s.takeKeys (o.filter fun entry => isKnownKey entry.1) = s.takeKeys o := by
  induction o generalizing s with
  | nil => rfl
  | cons entry rest ih =>
      obtain ⟨key, j⟩ := entry
      rw [List.filter_cons]
      split
      · rw [takeKeys, takeKeys]
        cases s.takeKey key j with
        | error e => rfl
        | ok next => exact ih next
      · rename_i hother
        rw [takeKeys, takeKey_other (Bool.not_eq_true _ ▸ hother), ih]
        rfl

theorem takeKeys_put (s : Settings) (o : Members) {j' : Json}
    (h : forall s : Settings, s.takeKey key j = s.takeKey key j') :
    s.takeKeys (o.put key j) = s.takeKeys (o.put key j') := by
  induction o generalizing s with
  | nil => simp only [Members.put, takeKeys, h]
  | cons entry rest ih =>
      obtain ⟨k, v⟩ := entry
      rw [Members.put, Members.put]
      split
      · rw [takeKeys, takeKeys, h]
      · split
        · rw [takeKeys, takeKeys, h]
        · rw [takeKeys, takeKeys]
          cases s.takeKey k v with
          | error e => rfl
          | ok next => exact ih next

end Settings
end SchemaTypes
