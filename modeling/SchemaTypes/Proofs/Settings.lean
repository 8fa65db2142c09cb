import SchemaTypes.Proofs.Steps
import SchemaTypes.Settings

/-!
# What settings depend on

The keys of a generator block set the name of the file and the format.  They neither
read nor set the directory, and no key is in error because the directory is missing.
-/

namespace SchemaTypes

/-!
## Values
-/

def SettingsError.IsOf (key : List Char) (e : SettingsError) : Prop :=
  exists fault, e = .invalidValue key fault

theorem isOf_stringValue {key : List Char} {j : Json} {e : SettingsError}
    (h : stringValue key j = .error e) : e.IsOf key := by
  unfold stringValue at h
  split at h
  · cases h
  · cases h
    exact ⟨_, rfl⟩

theorem isOf_positiveValue {key : List Char} {j : Json} {e : SettingsError}
    (h : positiveValue key j = .error e) : e.IsOf key := by
  unfold positiveValue at h
  split at h
  · cases h
  · cases h
    exact ⟨_, rfl⟩

theorem isOf_lineEndingValue {key : List Char} {j : Json} {e : SettingsError}
    (h : lineEndingValue key j = .error e) : e.IsOf key := by
  unfold lineEndingValue at h
  cases bind_eq_error.mp h with
  | inl hstring => exact isOf_stringValue hstring
  | inr hname =>
      obtain ⟨name, _, hname⟩ := hname
      split at hname
      · cases hname
      · cases hname
        exact ⟨_, rfl⟩

namespace Settings

variable {s t : Settings} {key : List Char} {j : Json}

theorem isOf_takeKey {e : SettingsError} (h : s.takeKey key j = .error e) : e.IsOf key := by
  unfold takeKey at h
  split at h
  · exact isOf_stringValue (eq_error_of_bind_ok h)
  · exact isOf_positiveValue (eq_error_of_bind_ok h)
  · exact isOf_positiveValue (eq_error_of_bind_ok h)
  · exact isOf_lineEndingValue (eq_error_of_bind_ok h)
  · cases h

theorem takeKeys_ne_missingOutput (s : Settings) (config : Members) :
    s.takeKeys config ≠ .error .missingOutput := by
  induction config generalizing s with
  | nil => simp [takeKeys]
  | cons entry rest ih =>
      obtain ⟨key, j⟩ := entry
      intro h
      rw [takeKeys] at h
      cases bind_eq_error.mp h with
      | inl hkey =>
          obtain ⟨fault, hfault⟩ := isOf_takeKey hkey
          cases hfault
      | inr hrest =>
          obtain ⟨next, _, hrest⟩ := hrest
          exact ih next hrest

theorem checkFileName_ne_missingOutput (s : Settings) : s.checkFileName ≠ .error .missingOutput := by
  unfold checkFileName
  split <;> simp

theorem checkFileName_eq_ok :
    s.checkFileName = .ok t <-> Path.isPlainName s.fileName = true /\ t = s := by
  unfold checkFileName
  split
  · rename_i hplain
    constructor
    · intro h
      cases h
      exact ⟨hplain, rfl⟩
    · intro h
      rw [h.right]
  · rename_i hplain
    constructor
    · intro h
      cases h
    · intro h
      exact absurd h.left hplain

/-- The directory stays what it is and changes nothing else. -/
theorem takeKey_withDirectory (s : Settings) (directory : Path) (key : List Char) (j : Json) :
    { s with directory }.takeKey key j = (s.takeKey key j).map fun t => { t with directory } := by
  unfold takeKey
  split
  · cases stringValue key j <;> rfl
  · cases positiveValue key j <;> rfl
  · cases positiveValue key j <;> rfl
  · cases lineEndingValue key j <;> rfl
  · rfl

theorem takeKeys_withDirectory (s : Settings) (directory : Path) (config : Members) :
    { s with directory }.takeKeys config =
      (s.takeKeys config).map fun t => { t with directory } := by
  induction config generalizing s with
  | nil => rfl
  | cons entry rest ih =>
      obtain ⟨key, j⟩ := entry
      rw [takeKeys, takeKeys, takeKey_withDirectory]
      cases s.takeKey key j with
      | error e => rfl
      | ok next => exact ih next

theorem fileName_takeKey (h : s.takeKey key j = .ok t) :
    t.fileName = s.fileName \/ (key, j) = ("fileName".toList, .string t.fileName) := by
  unfold takeKey at h
  split at h
  · rename_i hkey
    obtain ⟨name, hname, hset⟩ := bind_eq_ok.mp h
    cases hset
    cases j with
    | string text =>
        cases hname
        rw [← hkey, String.toList_ofList]
        exact .inr rfl
    | _ => cases hname
  · obtain ⟨_, _, hset⟩ := bind_eq_ok.mp h
    cases hset
    exact .inl rfl
  · obtain ⟨_, _, hset⟩ := bind_eq_ok.mp h
    cases hset
    exact .inl rfl
  · obtain ⟨_, _, hset⟩ := bind_eq_ok.mp h
    cases hset
    exact .inl rfl
  · cases h
    exact .inl rfl

theorem fileName_takeKeys {config : Members} (h : s.takeKeys config = .ok t) :
    t.fileName = s.fileName \/ ("fileName".toList, .string t.fileName) ∈ config := by
  induction config generalizing s with
  | nil =>
      cases h
      exact .inl rfl
  | cons entry rest ih =>
      obtain ⟨key, j⟩ := entry
      rw [takeKeys] at h
      obtain ⟨next, hnext, hrest⟩ := bind_eq_ok.mp h
      cases ih hrest with
      | inr hmem => exact .inr (List.mem_cons_of_mem _ hmem)
      | inl heq =>
          cases fileName_takeKey hnext with
          | inl hsame => exact .inl (heq.trans hsame)
          | inr hentry =>
              rw [← heq] at hentry
              rw [hentry]
              exact .inr List.mem_cons_self

end Settings

/-!
## Directories
-/

namespace Payload

theorem settings_eq_missingOutput {p : Payload} {o : Overrides} :
    p.settings o = .error .missingOutput <-> p.directory? o = none := by
  unfold settings
  constructor
  · intro h
    split at h
    · assumption
    · cases bind_eq_error.mp h with
      | inl hkeys => exact absurd hkeys (Settings.takeKeys_ne_missingOutput _ _)
      | inr hcheck =>
          obtain ⟨s, _, hcheck⟩ := hcheck
          exact absurd hcheck (Settings.checkFileName_ne_missingOutput _)
  · intro h
    rw [h]

theorem settings_eq_ok {p : Payload} {o : Overrides} {s : Settings} :
    p.settings o = .ok s <->
      exists directory taken, p.directory? o = some directory /\
        Settings.takeKeys { directory } p.generator.config = .ok taken /\
        Path.isPlainName (taken.override o).fileName = true /\ s = taken.override o := by
  unfold settings
  constructor
  · intro h
    split at h
    · cases h
    · rename_i directory hdirectory
      obtain ⟨taken, htaken, hcheck⟩ := bind_eq_ok.mp h
      obtain ⟨hplain, hs⟩ := Settings.checkFileName_eq_ok.mp hcheck
      exact ⟨directory, taken, hdirectory, htaken, hplain, hs⟩
  · rintro ⟨directory, taken, hdirectory, htaken, hplain, hs⟩
    rw [hdirectory]
    exact bind_eq_ok.mpr ⟨taken, htaken, Settings.checkFileName_eq_ok.mpr ⟨hplain, hs⟩⟩

end Payload

end SchemaTypes
