import SchemaTypes.Disk.FileTree
import SchemaTypes.Output
import SchemaTypes.Proofs.Steps

/-!
# Files that are written and kept

A file that has been written holds what was written under its path.  Making directories
and writing a file change nothing else: what is under a path is still there, unless it is
the file itself.
-/

namespace SchemaTypes

namespace FileTree

variable {t u v : FileTree} {place other : Place} {node : Node} {path : Path}

/-!
## Entries
-/

theorem findEntry_putEntry_self (place : Place) (node : Node) (es : List (Place × Node)) :
    findEntry place (putEntry place node es) = some node := by
  induction es with
  | nil => simp [putEntry, findEntry]
  | cons e es ih =>
      obtain ⟨p, n⟩ := e
      rw [putEntry]
      split
      · rw [findEntry, if_pos rfl]
      · rename_i hne
        rw [findEntry, if_neg hne, ih]

theorem findEntry_putEntry_ne (h : other ≠ place) (node : Node) (es : List (Place × Node)) :
    findEntry other (putEntry place node es) = findEntry other es := by
  induction es with
  | nil => simp [putEntry, findEntry, h.symm]
  | cons e es ih =>
      obtain ⟨p, n⟩ := e
      rw [putEntry]
      split
      · rename_i heq
        have hne : p ≠ other := fun hp => h (hp.symm.trans heq)
        rw [findEntry, findEntry, if_neg h.symm, if_neg hne]
      · rw [findEntry, findEntry, ih]

theorem at?_put_self (t : FileTree) (h : place ≠ []) (node : Node) :
    (t.put place node).at? place = some node := by
  rw [at?, if_neg h, put, findEntry_putEntry_self]

theorem at?_put_ne (t : FileTree) (h : other ≠ place) (node : Node) :
    (t.put place node).at? other = t.at? other := by
  rw [at?, at?, put, findEntry_putEntry_ne h]

/-!
## Names at the end of a path

A request about a path that ends in a name is about what has that name.
-/

section

variable {parent : Place} {name : List Char} {slash : Bool}
  (h : t.follow path = .ok (.name parent name slash))

include h

theorem lookup_of_name :
    t.lookup path = (checkName name).bind fun _ =>
      match t.at? (parent ++ [name]) with
      | none => .error .notFound
      | some .directory => .ok .directory
      | some (.file bytes) => if slash then .error .notDirectory else .ok (.file bytes) := by
  rw [lookup, h]
  rfl

theorem makeDirectory_of_name :
    t.makeDirectory path = (checkName name).bind fun _ =>
      match t.at? (parent ++ [name]) with
      | none => .ok (t.put (parent ++ [name]) .directory)
      | some _ => .error .exists := by
  rw [makeDirectory, h]
  rfl

theorem writeFile_of_name (bytes : List UInt8) :
    t.writeFile path bytes =
      if slash then .error .isDirectory
      else (checkName name).bind fun _ =>
        match t.at? (parent ++ [name]) with
        | some .directory => .error .isDirectory
        | _ => .ok (t.put (parent ++ [name]) (.file bytes)) := by
  rw [writeFile, h]
  rfl

end

def place? (t : FileTree) (path : Path) : Option Place :=
  match t.follow path with
  | .ok (.name parent name _) => some (parent ++ [name])
  | _ => none

theorem place?_of_name {parent : Place} {name : List Char} {slash : Bool}
    (h : t.follow path = .ok (.name parent name slash)) :
    t.place? path = some (parent ++ [name]) := by
  rw [place?, h]

/-!
## Trees that keep what is in another one
-/

/-- All that is in the first tree is in the second one, except that a file may have been
changed.  Paths start at the same place. -/
structure Keeps (changed : Option Place) (t u : FileTree) : Prop where
  here : u.here = t.here
  directory : forall place, t.at? place = some .directory -> u.at? place = some .directory
  file : forall place bytes, changed ≠ some place -> t.at? place = some (.file bytes) ->
    u.at? place = some (.file bytes)

theorem Keeps.refl (t : FileTree) : Keeps none t t :=
  ⟨rfl, fun _ h => h, fun _ _ _ h => h⟩

theorem Keeps.trans {changed : Option Place} (h : Keeps none t u) (hmore : Keeps changed u v) :
    Keeps changed t v :=
  ⟨hmore.here.trans h.here, fun place hplace => hmore.directory place (h.directory place hplace),
    fun place bytes hne hplace =>
      hmore.file place bytes hne (h.file place bytes (by simp) hplace)⟩

section

variable {changed : Option Place} (h : Keeps changed t u)

include h

theorem Keeps.enter {from? place : Place} {segment : List Char}
    (henter : t.enter from? segment = .ok place) : u.enter from? segment = .ok place := by
  rw [FileTree.enter] at henter ⊢
  split at henter
  · rename_i hidle
    rw [if_pos hidle]
    exact henter
  · rename_i hidle
    rw [if_neg hidle]
    split at henter
    · rename_i hup
      rw [if_pos hup]
      exact henter
    · rename_i hup
      rw [if_neg hup]
      cases hname : checkName segment with
      | error e =>
          rw [hname] at henter
          cases henter
      | ok _ =>
          rw [hname] at henter
          cases hentry : t.at? (from? ++ [segment]) with
          | none => simp [bind, Except.bind, hentry] at henter
          | some node =>
              cases node with
              | file bytes => simp [bind, Except.bind, hentry] at henter
              | directory =>
                  have hkept := h.directory _ hentry
                  simpa [bind, Except.bind, hentry, hkept] using henter

theorem Keeps.enterAll {from? place : Place} {segments : List (List Char)}
    (henter : t.enterAll from? segments = .ok place) : u.enterAll from? segments = .ok place := by
  induction segments generalizing from? with
  | nil => exact henter
  | cons segment rest ih =>
      rw [FileTree.enterAll] at henter ⊢
      cases hfirst : t.enter from? segment with
      | error e =>
          rw [hfirst] at henter
          cases henter
      | ok next =>
          rw [hfirst] at henter
          rw [h.enter hfirst]
          exact ih henter

theorem Keeps.follow {target : Target} (hfollow : t.follow path = .ok target) :
    u.follow path = .ok target := by
  rw [FileTree.follow] at hfollow ⊢
  rw [h.here]
  split at hfollow
  · cases hfollow
  split at hfollow
  · cases hfollow
  split at hfollow
  · cases hfollow
  rename_i hnul hempty hlong
  rw [if_neg hnul, if_neg hempty, if_neg hlong]
  dsimp only at hfollow ⊢
  generalize ((Path.segments path).reverse.dropWhile List.isEmpty).reverse = kept at hfollow ⊢
  cases hkept : kept.reverse with
  | nil =>
    rw [hkept] at hfollow
    exact hfollow
  | cons last before =>
    rw [hkept] at hfollow
    dsimp only at hfollow ⊢
    cases henter : t.enterAll (if Path.isAbsolute path then [] else t.here) before.reverse with
    | error e =>
        rw [henter] at hfollow
        cases hfollow
    | ok place =>
        rw [henter] at hfollow
        rw [h.enterAll henter]
        exact hfollow

theorem Keeps.place? (hplace : t.place? path = some place) : u.place? path = some place := by
  rw [FileTree.place?] at hplace ⊢
  cases hfollow : t.follow path with
  | error e =>
      rw [hfollow] at hplace
      cases hplace
  | ok target =>
      rw [hfollow] at hplace
      rw [h.follow hfollow]
      exact hplace

theorem Keeps.lookup (hlookup : t.lookup path = .ok node)
    (hchanged : forall place, t.place? path = some place -> changed ≠ some place) :
    u.lookup path = .ok node := by
  cases hfollow : t.follow path with
  | error e =>
      rw [FileTree.lookup, hfollow] at hlookup
      cases hlookup
  | ok target =>
      cases target with
      | directory place =>
          rw [FileTree.lookup, hfollow] at hlookup
          rw [FileTree.lookup, h.follow hfollow]
          exact hlookup
      | name parent name slash =>
          rw [lookup_of_name hfollow] at hlookup
          rw [lookup_of_name (h.follow hfollow)]
          cases hentry : t.at? (parent ++ [name]) with
          | none =>
              rw [hentry] at hlookup
              cases hname : checkName name with
              | error e =>
                  rw [hname] at hlookup
                  cases hlookup
              | ok _ =>
                  rw [hname] at hlookup
                  cases hlookup
          | some found =>
              have hkept : u.at? (parent ++ [name]) = some found := by
                cases found with
                | directory => exact h.directory _ hentry
                | file bytes =>
                    exact h.file _ bytes (hchanged _ (place?_of_name hfollow)) hentry
              rw [hkept, ← hentry]
              exact hlookup

theorem Keeps.readFile {bytes : List UInt8} (hread : t.readFile path = .ok bytes)
    (hchanged : forall place, t.place? path = some place -> changed ≠ some place) :
    u.readFile path = .ok bytes := by
  rw [FileTree.readFile] at hread ⊢
  cases hlookup : t.lookup path with
  | error e =>
      rw [hlookup] at hread
      cases hread
  | ok node =>
      rw [hlookup] at hread
      rw [h.lookup hlookup hchanged]
      exact hread

end

theorem pathExists_of_readFile {bytes : List UInt8} (h : t.readFile path = .ok bytes) :
    t.pathExists path = true := by
  rw [readFile] at h
  rw [pathExists]
  cases hlookup : t.lookup path with
  | error e =>
      rw [hlookup] at h
      cases h
  | ok node => rfl

/-!
## Requests
-/

/-- A directory that is put where nothing was changes nothing else. -/
theorem keeps_put_directory (h : t.at? place = none) : Keeps none t (t.put place .directory) := by
  have hother : forall other node, t.at? other = some node ->
      (t.put place .directory).at? other = some node := by
    intro other node hother
    have hne : other ≠ place := by
      rintro rfl
      rw [h] at hother
      cases hother
    rw [at?_put_ne t hne, hother]
  exact ⟨rfl, fun other => hother other _, fun other bytes _ => hother other _⟩

theorem keeps_makeDirectory (h : t.makeDirectory path = .ok u) : Keeps none t u := by
  cases hfollow : t.follow path with
  | error e =>
      rw [makeDirectory, hfollow] at h
      cases h
  | ok target =>
      cases target with
      | directory place =>
          rw [makeDirectory, hfollow] at h
          cases h
      | name parent name slash =>
          rw [makeDirectory_of_name hfollow] at h
          cases hname : checkName name with
          | error e =>
              rw [hname] at h
              cases h
          | ok _ =>
              cases hentry : t.at? (parent ++ [name]) with
              | some found =>
                  rw [hname, hentry] at h
                  cases h
              | none =>
                  rw [hname, hentry] at h
                  cases h
                  exact keeps_put_directory hentry

/-- What a file is put at holds it, and nothing else is changed. -/
theorem keeps_put_file (hplace : t.at? place ≠ some .directory) (bytes : List UInt8) :
    Keeps (some place) t (t.put place (.file bytes)) := by
  refine ⟨rfl, fun other hother => ?_, fun other old hne hother => ?_⟩
  · have hne : other ≠ place := by
      rintro rfl
      exact hplace hother
    rw [at?_put_ne t hne, hother]
  · have hne' : other ≠ place := fun heq => hne (by rw [heq])
    rw [at?_put_ne t hne', hother]

theorem put_of_writeFile {bytes : List UInt8} (h : t.writeFile path bytes = .ok u) :
    exists parent name, t.follow path = .ok (.name parent name false) /\ checkName name = .ok () /\
      t.at? (parent ++ [name]) ≠ some .directory /\ u = t.put (parent ++ [name]) (.file bytes) := by
  cases hfollow : t.follow path with
  | error e =>
      rw [writeFile, hfollow] at h
      cases h
  | ok target =>
      cases target with
      | directory place =>
          rw [writeFile, hfollow] at h
          cases h
      | name parent name slash =>
          rw [writeFile_of_name hfollow] at h
          cases slash with
          | true => cases h
          | false =>
              refine ⟨parent, name, rfl, ?_⟩
              cases hname : checkName name with
              | error e =>
                  rw [hname] at h
                  cases h
              | ok _ =>
                  rw [hname] at h
                  have hfile : t.at? (parent ++ [name]) ≠ some .directory := by
                    intro hentry
                    rw [hentry] at h
                    cases h
                  refine ⟨rfl, hfile, ?_⟩
                  cases hentry : t.at? (parent ++ [name]) with
                  | none =>
                      rw [hentry] at h
                      cases h
                      rfl
                  | some found =>
                      cases found with
                      | directory => exact absurd hentry hfile
                      | file old =>
                          rw [hentry] at h
                          cases h
                          rfl

/-- A file that has been written holds what was written, and no other file is changed. -/
theorem of_writeFile {bytes : List UInt8} (h : t.writeFile path bytes = .ok u) :
    exists place, t.place? path = some place /\ Keeps (some place) t u /\
      u.readFile path = .ok bytes := by
  obtain ⟨parent, name, hfollow, hname, hfile, rfl⟩ := put_of_writeFile h
  have hkeeps := keeps_put_file hfile bytes
  refine ⟨_, place?_of_name hfollow, hkeeps, ?_⟩
  rw [readFile, lookup_of_name (hkeeps.follow hfollow), hname, at?_put_self t (by simp)]
  rfl

/-!
## Runs of requests
-/

theorem run_makeDirectory (path : Path) (t : FileTree) :
    (disk.makeDirectory path).run t =
      match t.makeDirectory path with
      | .ok u => (.ok (), u)
      | .error fault => (.error fault, t) :=
  rfl

theorem run_writeFile (path : Path) (bytes : List UInt8) (t : FileTree) :
    (disk.writeFile path bytes).run t =
      match t.writeFile path bytes with
      | .ok u => (.ok (), u)
      | .error fault => (.error fault, t) :=
  rfl

theorem run_ensureDirectory (path : Path) (t : FileTree) :
    (disk.ensureDirectory path).run t =
      match t.makeDirectory path with
      | .ok u => (.ok (), u)
      | .error .exists => (if t.isDirectory path then .ok () else .error .exists, t)
      | .error fault => (.error fault, t) := by
  rw [Disk.ensureDirectory, run_step, run_makeDirectory]
  cases t.makeDirectory path with
  | ok u => rfl
  | error fault =>
      cases fault with
      | «exists» =>
          change StateT.run (if t.isDirectory path then _ else _) t = _
          cases t.isDirectory path <;> rfl
      | _ => rfl

theorem keeps_ensureDirectory (path : Path) (t : FileTree) :
    Keeps none t ((disk.ensureDirectory path).run t).2 := by
  rw [run_ensureDirectory]
  split
  · rename_i hmake
    exact keeps_makeDirectory hmake
  · exact .refl t
  · exact .refl t

theorem keeps_ensureChain (paths : List Path) (t : FileTree) :
    Keeps none t ((disk.ensureChain paths).run t).2 := by
  induction paths generalizing t with
  | nil => exact .refl t
  | cons path around ih =>
      have hfirst := keeps_ensureDirectory path t
      rw [Disk.ensureChain, run_step]
      split
      · have haround := hfirst.trans (ih ((disk.ensureDirectory path).run t).2)
        rw [run_step]
        split
        · exact haround.trans (keeps_ensureDirectory path _)
        · exact haround
      · exact hfirst

theorem keeps_prepare (path : Path) (t : FileTree) :
    Keeps none t ((disk.prepare path).run t).2 := by
  rw [Disk.prepare]
  split
  · exact .refl t
  · rename_i parent hparent
    split
    · exact .refl t
    · rw [run_step]
      have hchain := keeps_ensureChain (Path.chain parent) t
      split
      · exact hchain
      · exact hchain

/-- An output that has been written is what its file holds, in directories that were
made before. -/
theorem of_writeOutput {content : List Char} {result : WriteResult}
    (h : (disk.writeOutput path content).run t = (.ok result, u)) :
    result = .written path (Text.encode content).length /\
      exists mid, Keeps none t mid /\ mid.writeFile path (Text.encode content) = .ok u := by
  rw [Disk.writeOutput, run_step] at h
  have hmid := keeps_prepare path t
  generalize (disk.prepare path).run t = prepared at h hmid
  obtain ⟨answer, mid⟩ := prepared
  cases answer with
  | error e => cases h
  | ok _ =>
      dsimp only at h hmid
      rw [run_step, run_writeFile] at h
      cases hwrite : mid.writeFile path (Text.encode content) with
      | error fault =>
          rw [hwrite] at h
          cases h
      | ok after =>
          rw [hwrite] at h
          cases h
          exact ⟨rfl, mid, hmid, hwrite⟩

end FileTree
end SchemaTypes
