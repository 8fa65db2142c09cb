import SchemaTypes.Proofs.Settings.Resolution

/-!
# What the settings of a payload come to

The settings are found exactly where a directory is asked for, every key has a value of
its kind and the name that the file is given is a plain one.  Otherwise the first of
these that fails is told.  No other key of the configuration counts.
-/

namespace SchemaTypes

/-!
## Where a part comes from
-/

inductive Comes {α : Type} (given? : Option α) (value? : Option Json) (means : Json -> α -> Prop)
    (default : α) : α -> Prop
  | given {a : α} (hgiven : given? = some a) : Comes given? value? means default a
  | configured {a : α} {j : Json} (hgiven : given? = none) (hvalue : value? = some j)
      (hmeans : means j a) : Comes given? value? means default a
  | default (hgiven : given? = none) (hvalue : value? = none) :
      Comes given? value? means default default

theorem Comes.unique {α : Type} {given? : Option α} {value? : Option Json}
    {means : Json -> α -> Prop} {default a b : α}
    (hunique : forall j a b, means j a -> means j b -> a = b)
    (ha : Comes given? value? means default a) (hb : Comes given? value? means default b) :
    a = b := by
  cases ha with
  | given hgiven =>
      cases hb with
      | given hgiven' => exact Option.some.inj (hgiven.symm.trans hgiven')
      | configured hnone _ _ => exact absurd (hgiven.symm.trans hnone) (by simp)
      | default hnone _ => exact absurd (hgiven.symm.trans hnone) (by simp)
  | configured hnone hvalue hmeans =>
      cases hb with
      | given hgiven => exact absurd (hgiven.symm.trans hnone) (by simp)
      | configured _ hvalue' hmeans' =>
          cases hvalue.symm.trans hvalue'
          exact hunique _ _ _ hmeans hmeans'
      | default _ hmissing => exact absurd (hvalue.symm.trans hmissing) (by simp)
  | default hnone hmissing =>
      cases hb with
      | given hgiven => exact absurd (hgiven.symm.trans hnone) (by simp)
      | configured _ hvalue _ => exact absurd (hvalue.symm.trans hmissing) (by simp)
      | default _ _ => rfl

namespace SettingsKey

def given? : (k : SettingsKey) -> Overrides -> Option k.Value
  | endOfLine, _ => none
  | fileName, o => o.fileName
  | printWidth, o => o.printWidth
  | tabWidth, _ => none

theorem part_override (k : SettingsKey) (s : Settings) (o : Overrides) :
    k.part (s.override o) = (k.given? o).getD (k.part s) := by
  cases k <;> rfl

theorem means_or_refuses (k : SettingsKey) {j : Json} (hj : j.IsStored) :
    (exists v, k.Means j v) \/ exists fault, k.Refuses j fault := by
  have hread := k.reads_read hj
  generalize k.read j = x at hread
  cases hread with
  | taken hv => exact .inl ⟨_, hv⟩
  | refused hnone hfault => exact .inr ⟨_, hnone, hfault⟩

end SettingsKey

namespace Members

variable {c : Members}

/-- Every key that settings are taken from has a value of its kind. -/
structure IsConfiguration (c : Members) : Prop where
  endOfLine : forall j, c.find? "endOfLine".toList = some j -> exists e, j.IsLineEnding e
  fileName : forall j, c.find? "fileName".toList = some j -> exists name, j.IsText name
  printWidth : forall j, c.find? "printWidth".toList = some j -> exists n, j.IsWidth n
  tabWidth : forall j, c.find? "tabWidth".toList = some j -> exists n, j.IsWidth n

theorem isConfiguration_iff :
    c.IsConfiguration <->
      forall (k : SettingsKey) (j : Json), c.find? k.name = some j -> exists v, k.Means j v := by
  constructor
  · intro h k
    cases k with
    | endOfLine => exact h.endOfLine
    | fileName => exact h.fileName
    | printWidth => exact h.printWidth
    | tabWidth => exact h.tabWidth
  · intro h
    exact ⟨h .endOfLine, h .fileName, h .printWidth, h .tabWidth⟩

structure RefusesFirst (c : Members) (k : SettingsKey) (fault : InvalidValue) : Prop where
  refuses : exists j, c.find? k.name = some j /\ k.Refuses j fault
  first : forall (l : SettingsKey) (j : Json) (other : InvalidValue),
    Text.encode l.name < Text.encode k.name -> c.find? l.name = some j -> ¬ l.Refuses j other

theorem IsSorted.mem_before {before after : Members} {key : List Char} {j : Json}
    (h : IsSorted (before ++ (key, j) :: after)) {entry : List Char × Json}
    (hentry : entry ∈ before ++ (key, j) :: after) (hlt : entry.1 < key) : entry ∈ before := by
  obtain ⟨_, hrest, _⟩ := List.pairwise_append.mp h
  rcases List.mem_append.mp hentry with hbefore | hentry
  · exact hbefore
  · rcases List.mem_cons.mp hentry with rfl | hafter
    · exact absurd hlt (List.lt_irrefl _)
    · have hgt := (List.pairwise_cons.mp hrest).left _ hafter
      exact absurd (List.lt_trans hlt hgt) (List.lt_irrefl _)

theorem filter_eq_of_find? {o c : Members} (ho : o.IsSorted) (hc : c.IsSorted)
    {p : List Char -> Bool} (h : forall key, p key = true -> o.find? key = c.find? key) :
    (o.filter fun entry => p entry.1) = c.filter fun entry => p entry.1 := by
  have hnodup : forall {m : Members}, m.IsSorted -> (m.filter fun entry => p entry.1).Nodup := by
    intro m hm
    refine List.Pairwise.imp ?_ (hm.filter _)
    intro a b hlt heq
    exact List.lt_irrefl _ (heq ▸ hlt)
  have hmem : forall entry,
      entry ∈ (o.filter fun entry => p entry.1) <-> entry ∈ c.filter fun entry => p entry.1 := by
    rintro ⟨key, j⟩
    rw [List.mem_filter, List.mem_filter]
    refine and_congr_left fun hkey => ?_
    rw [← ho.find?_eq_some, ← hc.find?_eq_some, h key hkey]
  refine List.Perm.eq_of_pairwise ?_ (ho.filter _) (hc.filter _)
    ((List.perm_ext_iff_of_nodup (hnodup ho) (hnodup hc)).mpr hmem)
  intro a b _ _ hlt hgt
  exact absurd (List.lt_trans hlt hgt) (List.lt_irrefl _)

end Members

/-!
## The settings of a payload
-/

namespace Payload

variable {p q : Payload} {o : Overrides} {s : Settings}

def askedDirectory? (p : Payload) (o : Overrides) : Option Path :=
  o.output <|> p.generator.output.bind OutputValue.value

def IsFileName (p : Payload) (o : Overrides) : List Char -> Prop :=
  Comes o.fileName (p.generator.config.find? "fileName".toList) Json.IsText "index.ts".toList

/-- Every part of the settings comes from where it is given first. -/
structure Settles (p : Payload) (o : Overrides) (s : Settings) : Prop where
  directory : p.askedDirectory? o = some s.directory
  fileName : p.IsFileName o s.fileName
  printWidth : Comes o.printWidth (p.generator.config.find? "printWidth".toList) Json.IsWidth 100
    s.format.printWidth
  tabWidth : Comes none (p.generator.config.find? "tabWidth".toList) Json.IsWidth 2
    s.format.tabWidth
  endOfLine : Comes none (p.generator.config.find? "endOfLine".toList) Json.IsLineEnding .auto
    s.format.endOfLine

theorem directory?_eq_some {directory : Path} :
    p.directory? o = some directory <->
      p.askedDirectory? o = some directory /\ directory ≠ [] := by
  unfold directory? askedDirectory?
  rw [Option.filter_eq_some_iff]
  simp

theorem directory_ne_nil (h : p.settings o = .ok s) : s.directory ≠ [] := by
  obtain ⟨directory, taken, hdirectory, htaken, _, rfl⟩ := settings_eq_ok.mp h
  change taken.directory ≠ []
  rw [Settings.directory_takeKeys htaken]
  exact (directory?_eq_some.mp hdirectory).right

theorem exists_directory? (h : exists directory, p.askedDirectory? o = some directory /\
    directory ≠ []) : exists directory, p.directory? o = some directory := by
  obtain ⟨directory, hdirectory⟩ := h
  exact ⟨directory, directory?_eq_some.mpr hdirectory⟩

/-- What the keys make of the settings, with what the caller gives instead. -/
theorem comes_of_takeKeys {directory : Path} {taken : Settings}
    (hp : p.generator.config.IsStored)
    (h : Settings.takeKeys { directory } p.generator.config = .ok taken) (k : SettingsKey) :
    Comes (k.given? o) (p.generator.config.find? k.name) k.Means
      (k.part { directory := directory }) (k.part (taken.override o)) := by
  rw [k.part_override]
  cases hgiven : k.given? o with
  | some v => exact .given rfl
  | none =>
      rcases Settings.part_takeKeys hp.values h k with ⟨j, hmem, hmeans⟩ | ⟨hnone, hkept⟩
      · exact .configured rfl (hp.sorted.find?_eq_some.mpr hmem) hmeans
      · have hmissing : p.generator.config.find? k.name = none := by
          cases hfind : p.generator.config.find? k.name with
          | none => rfl
          | some j => exact absurd (Members.mem_of_find? hfind) (hnone j)
        rw [Option.getD_none, hkept]
        exact .default rfl hmissing

theorem settles_of_settings (hp : p.generator.config.IsStored) (h : p.settings o = .ok s) :
    p.Settles o s := by
  obtain ⟨directory, taken, hdirectory, htaken, _, rfl⟩ := settings_eq_ok.mp h
  have hcomes := comes_of_takeKeys (o := o) hp htaken
  exact
    { directory := by
        rw [show (taken.override o).directory = taken.directory from rfl,
          Settings.directory_takeKeys htaken]
        exact (directory?_eq_some.mp hdirectory).left
      fileName := hcomes .fileName
      printWidth := hcomes .printWidth
      tabWidth := hcomes .tabWidth
      endOfLine := hcomes .endOfLine }

theorem takeKeys_config (hp : p.generator.config.IsStored) (s : Settings) :
    ((exists t, s.takeKeys p.generator.config = .ok t) /\ p.generator.config.IsConfiguration) \/
      (¬ p.generator.config.IsConfiguration /\ exists k fault,
        s.takeKeys p.generator.config = .error (.invalidValue k.name fault) /\
          p.generator.config.RefusesFirst k fault) := by
  rw [Members.isConfiguration_iff]
  rcases Settings.takeKeys_cases s hp.values with
    ⟨hok, hnone⟩ | ⟨before, key, j, after, fault, hconfig, hbefore, ⟨k, rfl, hrefuses⟩, herror⟩
  · refine .inl ⟨hok, ?_⟩
    intro k j hfind
    rcases k.means_or_refuses (hp.find? hfind) with hmeans | ⟨fault, hrefuses⟩
    · exact hmeans
    · exact absurd ⟨k, rfl, hrefuses⟩ (hnone k.name j fault (Members.mem_of_find? hfind))
  · have hfind : p.generator.config.find? k.name = some j :=
      hp.sorted.find?_eq_some.mpr (by simp [hconfig])
    refine .inr ⟨?_, k, fault, herror, ⟨j, hfind, hrefuses⟩, ?_⟩
    · intro hall
      obtain ⟨v, hv⟩ := hall k j hfind
      exact hrefuses.left v hv
    · intro l j' other hlt hfind' hrefuses'
      rw [SettingsKey.encode_name_lt] at hlt
      have hmem := Members.mem_of_find? hfind'
      have hsorted := hp.sorted
      rw [hconfig] at hmem hsorted
      exact hbefore _ _ other (hsorted.mem_before hmem hlt) ⟨l, rfl, hrefuses'⟩

/-- Payloads that ask for the same directory and agree on the keys that settings are taken
from have the same settings. -/
theorem settings_congr (hp : p.generator.config.IsSorted) (hq : q.generator.config.IsSorted)
    (houtput : q.generator.output = p.generator.output)
    (hconfig : forall key, Settings.isKnownKey key = true ->
      q.generator.config.find? key = p.generator.config.find? key) :
    q.settings o = p.settings o := by
  have hdirectory : q.directory? o = p.directory? o := by
    rw [directory?, directory?, houtput]
  have hkeys : forall s : Settings,
      s.takeKeys q.generator.config = s.takeKeys p.generator.config := by
    intro s
    rw [← Settings.takeKeys_filter, ← Settings.takeKeys_filter s p.generator.config,
      Members.filter_eq_of_find? hq hp hconfig]
  unfold settings
  rw [hdirectory]
  cases p.directory? o with
  | none => rfl
  | some directory =>
      dsimp only
      rw [hkeys]

def withKey (p : Payload) (key : List Char) (j : Json) : Payload :=
  { p with generator := { p.generator with config := p.generator.config.put key j } }

theorem settings_withKey_spelled {k : SettingsKey} (hk : k = .printWidth \/ k = .tabWidth)
    {n : Nat} (hpositive : 1 ≤ n) (hbound : n < 2 ^ 64) {t : List Char}
    (ht : Text.SpellsNumber t n) (p : Payload) (o : Overrides) :
    (p.withKey k.name (.number (.integer n))).settings o =
      (p.withKey k.name (.string t)).settings o := by
  have hread : k.read (.number (.integer n)) = k.read (.string t) := by
    have hstored : (Json.number (.integer n)).IsStored := .number ⟨by omega, by omega⟩
    have hnumber := k.reads_read hstored
    have htext := k.reads_read (.string t)
    rcases hk with rfl | rfl
    all_goals
      exact (hnumber.eq_ok (fun _ _ => Json.IsWidth.unique) (.number hpositive hbound)).trans
        (htext.eq_ok (fun _ _ => Json.IsWidth.unique) (.text hpositive hbound ht)).symm
  have htake : forall s : Settings,
      s.takeKey k.name (.number (.integer n)) = s.takeKey k.name (.string t) := by
    intro s
    rw [Settings.takeKey_name, Settings.takeKey_name, hread]
  unfold settings
  rw [show (p.withKey k.name (.number (.integer n))).directory? o =
    (p.withKey k.name (.string t)).directory? o from rfl]
  cases (p.withKey k.name (.string t)).directory? o with
  | none => rfl
  | some directory => exact congrArg (· >>= _) (Settings.takeKeys_put _ _ htake)

/-!
## Outcomes
-/

def HasDirectory (p : Payload) (o : Overrides) : Prop :=
  exists directory, p.askedDirectory? o = some directory /\ directory ≠ []

theorem IsFileName.unique {name other : List Char} (h : p.IsFileName o name)
    (hother : p.IsFileName o other) : name = other :=
  Comes.unique (fun _ _ _ hs ht => hs.unique ht) h hother

/-- What the settings of a payload come to, in the order in which it is looked at. -/
inductive Outcome (p : Payload) (o : Overrides) : Except SettingsError Settings -> Prop
  | missingOutput (hdirectory : ¬ p.HasDirectory o) : Outcome p o (.error .missingOutput)
  | refused {k : SettingsKey} {fault : InvalidValue} (hdirectory : p.HasDirectory o)
      (hconfig : ¬ p.generator.config.IsConfiguration)
      (hfirst : p.generator.config.RefusesFirst k fault) :
      Outcome p o (.error (.invalidValue k.name fault))
  | notPlainName {name : List Char} (hdirectory : p.HasDirectory o)
      (hconfig : p.generator.config.IsConfiguration) (hname : p.IsFileName o name)
      (hplain : Path.isPlainName name = false) :
      Outcome p o (.error (.invalidValue "fileName".toList (.notPlainName name)))
  | settled {s : Settings} (hdirectory : p.HasDirectory o)
      (hconfig : p.generator.config.IsConfiguration)
      (hplain : Path.isPlainName s.fileName = true) (hsettles : p.Settles o s) :
      Outcome p o (.ok s)

theorem outcome_settings (hp : p.generator.config.IsStored) (o : Overrides) :
    p.Outcome o (p.settings o) := by
  by_cases hdirectory : p.HasDirectory o
  · obtain ⟨directory, hsome⟩ := exists_directory? hdirectory
    have hrun : p.settings o =
        Settings.takeKeys { directory } p.generator.config >>= fun s =>
          (s.override o).checkFileName := by
      rw [settings, hsome]
    rcases takeKeys_config hp { directory } with
      ⟨⟨taken, htaken⟩, hconfig⟩ | ⟨hconfig, k, fault, herror, hfirst⟩
    · cases hplain : Path.isPlainName (taken.override o).fileName with
      | true =>
          have hok : p.settings o = .ok (taken.override o) :=
            settings_eq_ok.mpr ⟨directory, taken, hsome, htaken, hplain, rfl⟩
          rw [hok]
          exact .settled hdirectory hconfig hplain (settles_of_settings hp hok)
      | false =>
          have herror : p.settings o = .error
              (.invalidValue "fileName".toList (.notPlainName (taken.override o).fileName)) := by
            rw [hrun, htaken]
            exact if_neg (by simp [hplain])
          rw [herror]
          exact .notPlainName hdirectory hconfig (comes_of_takeKeys hp htaken .fileName) hplain
    · have herror' : p.settings o = .error (.invalidValue k.name fault) := by
        rw [hrun, herror]
        rfl
      rw [herror']
      exact .refused hdirectory hconfig hfirst
  · have hnone : p.directory? o = none := by
      cases hsome : p.directory? o with
      | none => rfl
      | some directory => exact absurd ⟨directory, directory?_eq_some.mp hsome⟩ hdirectory
    rw [settings_eq_missingOutput.mpr hnone]
    exact .missingOutput hdirectory

/-- Settings are found exactly where a directory is asked for, the keys have values of their
kinds and the file gets a plain name, and then each part comes from where it is given first.
Otherwise the first of the three that fails is told: of keys the first in the order of bytes,
whatever the caller gives in its place.  Other keys do not count, and a number counts as much
as a text that spells it. -/
theorem settings_outcome (p : Payload) (o : Overrides) (hp : p.generator.config.IsStored) :
    ((exists s, p.settings o = .ok s) <->
      p.HasDirectory o /\ p.generator.config.IsConfiguration /\
        exists name, p.IsFileName o name /\ Path.isPlainName name = true) /\
    (forall s, p.settings o = .ok s -> p.Settles o s) /\
    (¬ p.HasDirectory o -> p.settings o = .error .missingOutput) /\
    (p.HasDirectory o -> ¬ p.generator.config.IsConfiguration ->
      exists k fault, p.settings o = .error (.invalidValue k.name fault) /\
        p.generator.config.RefusesFirst k fault) /\
    (p.HasDirectory o -> p.generator.config.IsConfiguration ->
      forall name, p.IsFileName o name -> Path.isPlainName name = false ->
        p.settings o = .error (.invalidValue "fileName".toList (.notPlainName name))) /\
    (forall q : Payload, q.generator.config.IsStored -> q.generator.output = p.generator.output ->
      (forall key, Settings.isKnownKey key = true ->
        q.generator.config.find? key = p.generator.config.find? key) ->
      q.settings o = p.settings o) /\
    (forall (k : SettingsKey) (n : Nat) (t : List Char), k = .printWidth \/ k = .tabWidth ->
      1 ≤ n -> n < 2 ^ 64 -> Text.SpellsNumber t n ->
        (p.withKey k.name (.number (.integer n))).settings o =
          (p.withKey k.name (.string t)).settings o) := by
  have houtcome := outcome_settings hp o
  refine ⟨⟨?_, ?_⟩, fun s => settles_of_settings hp, ?_, ?_, ?_,
    fun q hq => settings_congr hp.sorted hq.sorted,
    fun k n t hk hpositive hbound ht => settings_withKey_spelled hk hpositive hbound ht p o⟩
  · rintro ⟨s, hs⟩
    rw [hs] at houtcome
    cases houtcome with
    | settled hdirectory hconfig hplain hsettles =>
        exact ⟨hdirectory, hconfig, s.fileName, hsettles.fileName, hplain⟩
  · rintro ⟨hdirectory, hconfig, name, hname, hplain⟩
    generalize p.settings o = outcome at houtcome ⊢
    cases houtcome with
    | missingOutput hnone => exact absurd hdirectory hnone
    | refused _ hrefused _ => exact absurd hconfig hrefused
    | notPlainName _ _ hother hnot =>
        rw [hname.unique hother, hnot] at hplain
        cases hplain
    | @settled s _ _ _ _ => exact ⟨s, rfl⟩
  · intro hnone
    generalize p.settings o = outcome at houtcome ⊢
    cases houtcome with
    | missingOutput _ => rfl
    | refused hdirectory _ _ => exact absurd hdirectory hnone
    | notPlainName hdirectory _ _ _ => exact absurd hdirectory hnone
    | settled hdirectory _ _ _ => exact absurd hdirectory hnone
  · intro hdirectory hconfig
    generalize p.settings o = outcome at houtcome ⊢
    cases houtcome with
    | missingOutput hnone => exact absurd hdirectory hnone
    | @refused k fault _ _ hfirst => exact ⟨k, fault, rfl, hfirst⟩
    | notPlainName _ hall _ _ => exact absurd hall hconfig
    | settled _ hall _ _ => exact absurd hall hconfig
  · intro hdirectory hconfig name hname hplain
    generalize p.settings o = outcome at houtcome ⊢
    cases houtcome with
    | missingOutput hnone => exact absurd hdirectory hnone
    | refused _ hrefused _ => exact absurd hconfig hrefused
    | notPlainName _ _ hother _ => rw [hname.unique hother]
    | settled _ _ hplain' hsettles =>
        rw [hname.unique hsettles.fileName, hplain'] at hplain
        cases hplain

/-- A payload with a file name that is not plain and a width that is a text. -/
def withTexts : Payload where
  generator :=
    { output := some ⟨some "o".toList⟩
      config :=
        [("endOfLine".toList, .string "CRLF".toList), ("fileName".toList, .string "a/b".toList),
          ("printWidth".toList, .string " +080 ".toList), ("version".toList, .null)] }

theorem isStored_withTexts : withTexts.generator.config.IsStored where
  sorted := by
    rw [Members.IsSorted]
    decide
  values := by
    simp only [withTexts, List.forall_mem_cons]
    exact ⟨.string _, .string _, .string _, .null, fun _ hmem => absurd hmem List.not_mem_nil⟩

theorem settings_outcome_withTexts :
    withTexts.generator.config.IsStored /\
      withTexts.settings { fileName := some "f.ts".toList } = .ok
        { directory := "o".toList, fileName := "f.ts".toList,
          format := { printWidth := 80, tabWidth := 2, endOfLine := .crlf } } /\
      withTexts.Settles { fileName := some "f.ts".toList }
        { directory := "o".toList, fileName := "f.ts".toList,
          format := { printWidth := 80, tabWidth := 2, endOfLine := .crlf } } := by
  have hok : withTexts.settings { fileName := some "f.ts".toList } = .ok
      { directory := "o".toList, fileName := "f.ts".toList,
        format := { printWidth := 80, tabWidth := 2, endOfLine := .crlf } } :=
    toOption_eq_some.mp (by decide +kernel)
  obtain ⟨_, hsettles, _⟩ :=
    settings_outcome withTexts { fileName := some "f.ts".toList } isStored_withTexts
  exact ⟨isStored_withTexts, hok, hsettles _ hok⟩

end Payload

end SchemaTypes
