import SchemaTypes.Cli.Arguments
import SchemaTypes.Proofs.Settings.Outcome

/-!
# What settings are always like

Settings that are found have a directory with a name, a plain file name and widths of at
least one, with one exception: a width that the caller gives is not looked into, and only
a caller can ask for lines of no width.
-/

namespace SchemaTypes
namespace Settings

variable {s t : Settings}

structure HasWidths (s : Settings) : Prop where
  printWidth : 1 ≤ s.format.printWidth
  tabWidth : 1 ≤ s.format.tabWidth

theorem one_le_of_positiveValue {key : List Char} {j : Json} {n : Nat}
    (h : positiveValue key j = .ok n) : 1 ≤ n := by
  unfold positiveValue at h
  split at h
  · cases h
    exact Nat.succ_pos _
  · cases h

theorem HasWidths.takeKey {key : List Char} {j : Json} (hs : s.HasWidths)
    (h : s.takeKey key j = .ok t) : t.HasWidths := by
  by_cases hknown : isKnownKey key = true
  · obtain ⟨k, rfl⟩ := SettingsKey.isKnownKey_iff.mp hknown
    rw [takeKey_name] at h
    obtain ⟨v, hv, ht⟩ := bind_eq_ok.mp h
    cases ht
    cases k with
    | endOfLine => exact ⟨hs.printWidth, hs.tabWidth⟩
    | fileName => exact ⟨hs.printWidth, hs.tabWidth⟩
    | printWidth => exact ⟨one_le_of_positiveValue hv, hs.tabWidth⟩
    | tabWidth => exact ⟨hs.printWidth, one_le_of_positiveValue hv⟩
  · rw [takeKey_other (Bool.not_eq_true _ ▸ hknown)] at h
    cases h
    exact hs

theorem HasWidths.takeKeys {o : Members} (hs : s.HasWidths) (h : s.takeKeys o = .ok t) :
    t.HasWidths := by
  induction o generalizing s with
  | nil =>
      cases h
      exact hs
  | cons entry rest ih =>
      obtain ⟨next, hnext, hrest⟩ := bind_eq_ok.mp h
      exact ih (hs.takeKey hnext) hrest

end Settings

namespace Payload

/-- Settings have a directory with a name, a plain file name and widths of at least one,
unless the caller asks for lines of no width. -/
theorem settings_valid {p : Payload} {o : Overrides} {s : Settings} (h : p.settings o = .ok s) :
    s.directory ≠ [] /\ Path.isPlainName s.fileName = true /\ 1 ≤ s.format.tabWidth /\
      (s.format.printWidth = 0 <-> o.printWidth = some 0) := by
  have hdirectory := directory_ne_nil h
  obtain ⟨directory, taken, _, htaken, hplain, rfl⟩ := settings_eq_ok.mp h
  have hwidths : taken.HasWidths :=
    Settings.HasWidths.takeKeys ⟨Nat.le_of_ble_eq_true rfl, Nat.le_of_ble_eq_true rfl⟩ htaken
  refine ⟨hdirectory, hplain, hwidths.tabWidth, ?_⟩
  change o.printWidth.getD taken.format.printWidth = 0 <-> _
  have hpositive := hwidths.printWidth
  cases o.printWidth with
  | none =>
      simp only [Option.getD_none, reduceCtorEq, iff_false]
      omega
  | some n => simp

def forDirectory (directory : Path) (config : Members) : Payload where
  generator := { output := some ⟨some directory⟩, config }

theorem settings_valid_narrow :
    (forDirectory "o".toList []).settings { printWidth := some 1 } = .ok
        { directory := "o".toList, format := { printWidth := 1 } } /\
      "o".toList ≠ [] /\ Path.isPlainName "index.ts".toList = true /\ 1 ≤ 2 /\
      (1 = 0 <-> some 1 = some 0) := by
  have hok : (forDirectory "o".toList []).settings { printWidth := some 1 } = .ok
      { directory := "o".toList, format := { printWidth := 1 } } :=
    toOption_eq_some.mp (by decide +kernel)
  exact ⟨hok, settings_valid hok⟩

/-- A command line can ask for lines of no width, which a configuration cannot. -/
theorem settings_without_width :
    Invocation.parse ["generate".toList, "--dmmf=d".toList, "--print-width=0".toList] =
        .command (.generate "d".toList { printWidth := some 0 } false) /\
      (forDirectory "o".toList []).settings { printWidth := some 0 } = .ok
        { directory := "o".toList, format := { printWidth := 0 } } /\
      (forDirectory "o".toList [("printWidth".toList, .ofNat 0)]).settings {} =
        .error (.invalidValue "printWidth".toList (.notPositive "0".toList)) := by
  refine ⟨by decide +kernel, toOption_eq_some.mp (by decide +kernel), ?_⟩
  rfl

end Payload

end SchemaTypes
