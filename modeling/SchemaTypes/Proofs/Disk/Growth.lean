import SchemaTypes.Proofs.Disk.FileTree
import SchemaTypes.Proofs.Path

/-!
# Trees that grow

Requests only ever add to a tree: its directories stay directories and its files stay
files.  What a path leads to is then fixed once it is found, and so is the reason for
which it is not, unless something on its way was missing.
-/

namespace SchemaTypes

namespace FileTree

variable {t u v : FileTree} {place : Place} {path : Path} {before : List (List Char)}
  {name : List Char}

/-!
## Growing
-/

/-- Directories stay directories and files stay files, with other bytes perhaps. -/
structure Grows (t u : FileTree) : Prop where
  here : u.here = t.here
  directory : forall place, t.at? place = some .directory -> u.at? place = some .directory
  file : forall place bytes, t.at? place = some (.file bytes) ->
    exists more, u.at? place = some (.file more)

theorem Grows.refl (t : FileTree) : Grows t t :=
  ⟨rfl, fun _ h => h, fun _ bytes h => ⟨bytes, h⟩⟩

theorem Grows.trans (h : Grows t u) (hmore : Grows u v) : Grows t v := by
  refine ⟨hmore.here.trans h.here, fun place hplace =>
    hmore.directory place (h.directory place hplace), fun place bytes hplace => ?_⟩
  obtain ⟨more, hu⟩ := h.file place bytes hplace
  exact hmore.file place more hu

theorem Keeps.grows (h : Keeps none t u) : Grows t u :=
  ⟨h.here, h.directory, fun place bytes hplace => ⟨bytes, h.file place bytes (by simp) hplace⟩⟩

theorem grows_put_file {place : Place} (h : t.at? place ≠ some .directory) (bytes : List UInt8) :
    Grows t (t.put place (.file bytes)) := by
  have hplace : place ≠ [] := by
    rintro rfl
    exact h rfl
  have hkeeps := keeps_put_file h bytes
  refine ⟨hkeeps.here, hkeeps.directory, fun other old hother => ?_⟩
  by_cases hsame : other = place
  · exact ⟨bytes, by rw [hsame, at?_put_self t hplace]⟩
  · exact ⟨old, by rw [at?_put_ne t hsame, hother]⟩

/-- A step into a directory is the same later, unless there was nothing to step into. -/
theorem Grows.enter (h : Grows t u) (place : Place) (segment : List Char)
    (hfound : t.enter place segment ≠ .error .notFound) :
    u.enter place segment = t.enter place segment := by
  unfold FileTree.enter at hfound ⊢
  split
  · rfl
  · split
    · rfl
    · rename_i hidle hup
      rw [if_neg hidle, if_neg hup] at hfound
      cases hname : checkName segment with
      | error e => rfl
      | ok _ =>
          cases hentry : t.at? (place ++ [segment]) with
          | none => simp [hname, hentry, bind, Except.bind] at hfound
          | some node =>
              cases node with
              | directory => rw [h.directory _ hentry]
              | file bytes =>
                  obtain ⟨more, hmore⟩ := h.file _ bytes hentry
                  rw [hmore]

theorem Grows.enterAll (h : Grows t u) (place : Place) (segments : List (List Char))
    (hfound : t.enterAll place segments ≠ .error .notFound) :
    u.enterAll place segments = t.enterAll place segments := by
  induction segments generalizing place with
  | nil => rfl
  | cons segment rest ih =>
      rw [FileTree.enterAll] at hfound ⊢
      rw [FileTree.enterAll]
      cases hfirst : t.enter place segment with
      | error e =>
          rw [hfirst] at hfound
          rw [h.enter place segment (by rw [hfirst]; exact hfound), hfirst]
          rfl
      | ok found =>
          rw [hfirst] at hfound
          rw [h.enter place segment (by rw [hfirst]; simp), hfirst]
          exact ih found hfound

/-!
## Ways
-/

def start (t : FileTree) (absolute : Bool) : Place :=
  if absolute then [] else t.here

/-- A step into a directory fails because there is nothing, because there is a file or
because the name is too long. -/
theorem enter_ne_exists (t : FileTree) (place : Place) (segment : List Char) :
    t.enter place segment ≠ .error .exists := by
  unfold enter checkName
  split
  · simp
  · split
    · simp
    · split
      · simp [bind, Except.bind]
      · cases t.at? (place ++ [segment]) with
        | none => simp [bind, Except.bind]
        | some node => cases node <;> simp [bind, Except.bind]

theorem enterAll_ne_exists (t : FileTree) (place : Place) (segments : List (List Char)) :
    t.enterAll place segments ≠ .error .exists := by
  induction segments generalizing place with
  | nil => simp [enterAll]
  | cons segment rest ih =>
      intro h
      rw [enterAll] at h
      cases bind_eq_error.mp h with
      | inl hfirst => exact enter_ne_exists t place segment hfirst
      | inr hrest =>
          obtain ⟨next, _, hrest⟩ := hrest
          exact ih next hrest

theorem enterAll_names (t : FileTree) (place : Place) (parts : List (List Char)) :
    t.enterAll place (Path.names parts) = t.enterAll place parts := by
  induction parts generalizing place with
  | nil => rfl
  | cons part rest ih =>
      cases hidle : Path.isIdle part with
      | true =>
          rw [Path.names_cons_idle hidle, ih, enterAll, enter, if_pos hidle]
          rfl
      | false =>
          have hnames : Path.names (part :: rest) = part :: Path.names rest := by
            simp [Path.names, hidle]
          rw [hnames, enterAll, enterAll]
          simp only [ih]

theorem enterAll_append (t : FileTree) (place : Place) (parts more : List (List Char)) :
    t.enterAll place (parts ++ more) = (t.enterAll place parts).bind (t.enterAll · more) := by
  induction parts generalizing place with
  | nil => rfl
  | cons part rest ih =>
      rw [List.cons_append, enterAll, enterAll]
      cases t.enter place part with
      | error e => rfl
      | ok next => exact ih next

theorem enterAll_concat (t : FileTree) (place : Place) (parts : List (List Char))
    (last : List Char) :
    t.enterAll place (parts ++ [last]) = (t.enterAll place parts).bind (t.enter · last) := by
  rw [enterAll_append]
  cases t.enterAll place parts with
  | error e => rfl
  | ok found =>
      change t.enterAll found [last] = t.enter found last
      rw [enterAll]
      cases t.enter found last <;> rfl

theorem enterAll_of_dropLast {parts : List (List Char)} {e : DiskFault}
    (h : t.enterAll place parts.dropLast = .error e) : t.enterAll place parts = .error e := by
  cases List.eq_nil_or_concat parts with
  | inl hnil =>
      rw [hnil] at h
      cases h
  | inr hconcat =>
      obtain ⟨init, last, hparts⟩ := hconcat
      rw [List.concat_eq_append] at hparts
      rw [hparts, List.dropLast_concat] at h
      rw [hparts, enterAll_concat, h]
      rfl

/-!
## Paths that end in a name
-/

/-- What is wrong with the text of a path, wherever it leads to. -/
def pathFault? (path : Path) : Option DiskFault :=
  if '\x00' ∈ path then some .nulInName
  else if longestPath < Text.byteLength path then some .nameTooLong
  else none

theorem follow_of_pathFault {e : DiskFault} (hne : path ≠ []) (h : pathFault? path = some e)
    (t : FileTree) : t.follow path = .error e := by
  unfold pathFault? at h
  rw [follow]
  split at h
  · rename_i hnul
    cases h
    rw [if_pos hnul]
  · rename_i hnul
    rw [if_neg hnul, if_neg hne]
    split at h
    · rename_i hlong
      cases h
      rw [if_pos hlong]
    · cases h

theorem pathFault_cases {e : DiskFault} (h : pathFault? path = some e) :
    e = .nulInName \/ e = .nameTooLong := by
  unfold pathFault? at h
  split at h
  · exact .inl (Option.some.inj h).symm
  · split at h
    · exact .inr (Option.some.inj h).symm
    · cases h

theorem byteLength_le_of_isPrefix {s s' : List Char} (h : s <+: s') :
    Text.byteLength s <= Text.byteLength s' := by
  obtain ⟨rest, rfl⟩ := h
  simp [Text.byteLength, Text.encode]

theorem pathFault?_of_isPrefix {q : Path} (hinit : q <+: path) (h : pathFault? path = none) :
    pathFault? q = none := by
  have hbytes := byteLength_le_of_isPrefix hinit
  unfold pathFault? at h ⊢
  split at h
  · cases h
  · rename_i hnul
    split at h
    · cases h
    · rename_i hlong
      rw [if_neg fun hmem => hnul (hinit.subset hmem), if_neg (by omega)]

theorem follow_of_named (hsegments : Path.segments path = before ++ [name])
    (hname : Path.isIdle name = false) (hpath : pathFault? path = none) (t : FileTree) :
    t.follow path =
      (t.enterAll (t.start (Path.isAbsolute path)) (Path.names before)).map fun place =>
        if name = ['.', '.'] then .directory place.dropLast else .name place name false := by
  have hnul : '\x00' ∉ path := by
    intro hnul
    rw [pathFault?, if_pos hnul] at hpath
    cases hpath
  have hlong : ¬longestPath < Text.byteLength path := by
    intro hlong
    rw [pathFault?, if_neg hnul, if_pos hlong] at hpath
    cases hpath
  have hne := Path.ne_nil_of_named hsegments hname
  have hempty : ¬name.isEmpty = true := by
    rw [Path.isIdle, Bool.or_eq_false_iff] at hname
    simp [hname.left]
  have hdot : name ≠ ['.'] := by
    rintro rfl
    cases hname
  have hkept : ((before ++ [name]).reverse.dropWhile List.isEmpty).reverse = before ++ [name] := by
    rw [List.reverse_append, List.reverse_singleton, List.singleton_append,
      List.dropWhile_cons_of_neg hempty, List.reverse_cons, List.reverse_reverse]
  rw [follow, if_neg hnul, if_neg hne, if_neg hlong, hsegments, enterAll_names]
  dsimp only
  rw [hkept, List.reverse_append]
  change (t.enterAll (t.start (Path.isAbsolute path)) before.reverse.reverse).bind _ = _
  rw [List.reverse_reverse]
  cases t.enterAll (t.start (Path.isAbsolute path)) before with
  | error e => rfl
  | ok place =>
      simp only [Except.bind, Except.map, if_neg hdot, lt_irrefl, decide_false]
      split <;> rfl

end FileTree
end SchemaTypes
