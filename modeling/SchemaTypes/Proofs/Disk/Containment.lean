import SchemaTypes.Proofs.Disk.Rewriting
import SchemaTypes.Proofs.Path.Components
import SchemaTypes.Proofs.Settings.Outcome

/-!
# What an output touches

An output makes directories on the way of its directory and replaces the one file of its
name there.  Whatever comes of it, everything else in the tree stays as it is, because
the name is a plain one and so the file stands nowhere but in the directory.
-/

namespace SchemaTypes

namespace FileTree

variable {t u : FileTree} {place : Place} {path : Path}

/-!
## Directories
-/

theorem at?_enterOrMake (t : FileTree) (place : Place) (name : List Char) (p : Place) :
    (t.enterOrMake place name).2.at? p = t.at? p \/
      (t.at? p = none /\ (t.enterOrMake place name).2.at? p = some .directory /\
        (t.enterOrMake place name).1 = .ok p) := by
  unfold enterOrMake
  split
  · exact .inl rfl
  · split
    · exact .inl rfl
    · split
      · rename_i hfree
        by_cases hp : p = place ++ [name]
        · subst hp
          exact .inr ⟨hfree, at?_put_self t (by simp) _, rfl⟩
        · exact .inl (at?_put_ne t hp _)
      · exact .inl rfl
      · exact .inl rfl

/-- Directories are made only at places on the way. -/
theorem at?_makeAll (t : FileTree) (place : Place) (parts : List (List Char)) (p : Place) :
    (t.makeAll place parts).2.at? p = t.at? p \/
      (t.at? p = none /\ (t.makeAll place parts).2.at? p = some .directory /\
        exists before after, parts = before ++ after /\ (t.makeAll place before).1 = .ok p) := by
  induction parts generalizing t place with
  | nil => exact .inl rfl
  | cons part rest ih =>
      have hstep := at?_enterOrMake t place part p
      have hkeeps := keeps_makeAll (t.enterOrMake place part).2
      have hone : t.makeAll place [part] = t.enterOrMake place part := by
        rw [makeAll]
        split <;> rename_i heq <;> rw [heq]
        rfl
      cases hmade : t.enterOrMake place part with
      | mk answer v =>
          rw [hmade] at hstep hkeeps hone
          cases answer with
          | error e =>
              have hrun : t.makeAll place (part :: rest) = (.error e, v) := by
                rw [makeAll, hmade]
              rw [hrun]
              rcases hstep with hsame | ⟨_, _, hcontra⟩
              · exact .inl hsame
              · cases hcontra
          | ok found =>
              have hrun : forall more, t.makeAll place (part :: more) = v.makeAll found more := by
                intro more
                rw [makeAll, hmade]
              rw [hrun]
              rcases ih v found with hlater | ⟨hfree, hthere, before, after, rfl, hp⟩
              · rw [hlater]
                rcases hstep with hsame | ⟨hfree, hthere, hp⟩
                · exact .inl hsame
                · exact .inr ⟨hfree, hthere, [part], rest, rfl, by rw [hone]; exact hp⟩
              · have hbefore : t.at? p = none := by
                  rcases hstep with hsame | ⟨hnone, _, _⟩
                  · rw [← hsame, hfree]
                  · exact hnone
                exact .inr ⟨hbefore, hthere, part :: before, after, rfl, by rw [hrun]; exact hp⟩

theorem keeps_makeAll_append (t : FileTree) (place : Place) (before after : List (List Char)) :
    Keeps none (t.makeAll place before).2 (t.makeAll place (before ++ after)).2 := by
  induction before generalizing t place with
  | nil => exact keeps_makeAll t place after
  | cons part rest ih =>
      rw [List.cons_append, makeAll, makeAll]
      split
      · exact ih _ _
      · exact .refl _

/-!
## Ways
-/

/-- The way of a path, which enters its steps one by one, comes to an end at the place. -/
def LeadsTo (t : FileTree) (path : Path) (place : Place) : Prop :=
  t.enterAll (t.start (Path.isAbsolute path)) (Path.names (Path.segments path)) = .ok place

def LeadsThrough (t : FileTree) (path : Path) (place : Place) : Prop :=
  exists before after, Path.names (Path.segments path) = before ++ after /\
    t.enterAll (t.start (Path.isAbsolute path)) before = .ok place

theorem Keeps.leadsThrough {changed : Option Place} (h : Keeps changed t u)
    (hplace : t.LeadsThrough path place) : u.LeadsThrough path place := by
  obtain ⟨before, after, hparts, henter⟩ := hplace
  rw [← start_of_here h.here] at henter
  exact ⟨before, after, hparts, h.enterAll henter⟩

theorem Keeps.leadsTo {changed : Option Place} (h : Keeps changed t u)
    (hplace : t.LeadsTo path place) : u.LeadsTo path place := by
  rw [LeadsTo, ← start_of_here h.here] at hplace
  exact h.enterAll hplace

theorem at?_makeWay (t : FileTree) (path : Path) (p : Place) :
    let u := (t.makeWay (t.start (Path.isAbsolute path)) (Path.names (Path.segments path))).2
    u.at? p = t.at? p \/
      (t.at? p = none /\ u.at? p = some .directory /\ u.LeadsThrough path p) := by
  intro u
  have hkeeps : Keeps none t u := keeps_makeWay _ _ _
  rcases makeWay_cases t (t.start (Path.isAbsolute path)) (Path.names (Path.segments path)) with
    ⟨e, _, _, hway⟩ | ⟨_, hway⟩
  · have hu : u = t := congrArg Prod.snd hway
    rw [hu]
    exact .inl rfl
  · have hu : u = (t.makeAll (t.start (Path.isAbsolute path))
        (Path.names (Path.segments path))).2 := congrArg Prod.snd hway
    rcases at?_makeAll t (t.start (Path.isAbsolute path)) (Path.names (Path.segments path)) p with
      hsame | ⟨hfree, hthere, before, after, hparts, hp⟩
    · rw [hu]
      exact .inl hsame
    · have hidle : forall part, part ∈ before -> Path.isIdle part = false := by
        intro part hpart
        refine Path.isIdle_of_mem_names (Path.segments path) part ?_
        rw [hparts]
        exact List.mem_append_left _ hpart
      have henter := enterAll_of_makeAll hidle t _ p hp
      have hlater := keeps_makeAll_append t (t.start (Path.isAbsolute path)) before after
      rw [← hparts, ← hu] at hlater
      refine .inr ⟨hfree, hu ▸ hthere, before, after, hparts, ?_⟩
      rw [start_of_here hkeeps.here]
      exact hlater.enterAll henter

/-!
## Outputs
-/

section

variable {before : List (List Char)} {name : List Char}
  (hsegments : Path.segments path = before ++ [name]) (hname : Path.isIdle name = false)
  (hup : name ≠ ['.', '.'])

include hsegments hname hup

/-- What comes of an output: its directories cannot be made, or its file can or cannot be
written in the directory to which they lead. -/
theorem run_writeOutput_cases (content : List Char) (t : FileTree) :
    (exists e, (disk.writeOutput path content).run t = (.error e, t)) \/
    exists answer u,
      t.makeWay (t.start (Path.isAbsolute path)) (Path.names before) = (answer, u) /\
        ((exists e, (disk.writeOutput path content).run t = (.error e, u)) \/
          exists place, answer = .ok place /\ u.at? (place ++ [name]) ≠ some .directory /\
            (disk.writeOutput path content).run t =
              (.ok (.written path (Text.encode content).length),
                u.put (place ++ [name]) (.file (Text.encode content)))) := by
  obtain ⟨q, _, hprepare⟩ := exists_run_prepare hsegments hname
  cases hfault : pathFault? q with
  | some e =>
      refine .inl ⟨.createDirectory q e, ?_⟩
      rw [Disk.writeOutput, run_step, hprepare, hfault]
      rfl
  | none =>
      have hprepares : PreparesBy path q before := by
        intro v
        rw [hprepare, hfault]
      cases hway : t.makeWay (t.start (Path.isAbsolute path)) (Path.names before) with
      | mk answer u =>
          refine .inr ⟨answer, u, rfl, ?_⟩
          cases answer with
          | error e =>
              refine .inl ⟨.createDirectory q e, ?_⟩
              rw [Disk.writeOutput, run_step, hprepares, hway]
              rfl
          | ok place =>
              rw [run_writeOutput_of_made hsegments hname hup hprepares hway content]
              cases hwrite : u.writeFault? path place name with
              | some e => exact .inl ⟨.writeFile path e, rfl⟩
              | none => exact .inr ⟨place, rfl, free_of_writeFault? hwrite, rfl⟩

end

/-- What an output of a file in a directory leaves of a tree: other places are as they
were, or directories that are made on the way of the directory, and the file stands in the
directory if it is written. -/
structure Contained (directory : Path) (name content : List Char) (t u : FileTree)
    (answer : Except WriteError WriteResult) : Prop where
  frame : forall place, u.at? place = t.at? place \/
    (t.at? place = none /\ u.at? place = some .directory /\ u.LeadsThrough directory place) \/
    (exists result around, answer = .ok result /\ u.LeadsTo directory around /\
      place = around ++ [name] /\ t.at? place ≠ some .directory)
  written : forall result, answer = .ok result -> exists around, u.LeadsTo directory around /\
    u.at? (around ++ [name]) = some (.file (Text.encode content))

variable {directory : Path} {name : List Char}

theorem contained_writeOutput (hplain : Path.isPlainName name = true) (hne : directory ≠ [])
    (content : List Char) (t : FileTree) :
    Contained directory name content t
      ((disk.writeOutput (Path.join directory name) content).run t).2
      ((disk.writeOutput (Path.join directory name) content).run t).1 := by
  obtain ⟨hslash, hidle, hup⟩ := Path.isPlainName_facts hplain
  obtain ⟨before, hsegments, hnames, _⟩ := Path.exists_segments_before hslash hne
  have habsolute := Path.isAbsolute_of_isPrefix (Path.directory_isPrefix_join hslash hne) hne
  rcases run_writeOutput_cases hsegments hidle hup content t with
    ⟨e, hrun⟩ | ⟨answer, u, hway, hrun⟩
  · rw [hrun]
    exact ⟨fun place => .inl rfl, fun result hok => nomatch hok⟩
  rw [hnames, ← habsolute] at hway
  have hmade : forall place, u.at? place = t.at? place \/
      (t.at? place = none /\ u.at? place = some .directory /\ u.LeadsThrough directory place) := by
    intro place
    have hplace := at?_makeWay t directory place
    rw [hway] at hplace
    exact hplace
  rcases hrun with ⟨e, hrun⟩ | ⟨around, rfl, hfree, hrun⟩
  · rw [hrun]
    refine ⟨fun place => ?_, fun result hok => nomatch hok⟩
    rcases hmade place with hsame | hnew
    · exact .inl hsame
    · exact .inr (.inl hnew)
  · have hput := keeps_put_file hfree (Text.encode content)
    have hleads : u.LeadsTo directory around := by
      rw [LeadsTo, start_of_here (keeps_of_makeWay hway).here]
      exact enterAll_of_makeWay (Path.isIdle_of_mem_names _) hway
    rw [hrun]
    refine ⟨fun place => ?_, fun result _ => ⟨around, hput.leadsTo hleads, at?_put_self u (by simp) _⟩⟩
    by_cases hplace : place = around ++ [name]
    · refine .inr (.inr ⟨_, around, rfl, hput.leadsTo hleads, hplace, ?_⟩)
      intro hdirectory
      rw [hplace] at hdirectory
      exact hfree ((keeps_of_makeWay hway).directory _ hdirectory)
    · rw [at?_put_ne u hplace]
      rcases hmade place with hsame | ⟨hnone, hthere, hthrough⟩
      · exact .inl hsame
      · exact .inr (.inl ⟨hnone, hthere, hput.leadsThrough hthrough⟩)

end FileTree

/-!
## Settings
-/

namespace Payload

/-- A plain file name is a text with no slash in it that is no name of a directory, and the
file that settings lead to stands in their directory: its path ends in the name and has the
directory as its parent, and to write it touches nothing else. -/
theorem output_contained :
    (forall name, Path.isPlainName name = true <->
      name ≠ [] /\ '/' ∉ name /\ name ≠ ['.'] /\ name ≠ ['.', '.']) /\
    forall (p : Payload) (o : Overrides) (s : Settings), p.settings o = .ok s ->
      Path.fileName? s.outputPath = some s.fileName /\
      Path.components s.outputPath = Path.components s.directory ++ [.name s.fileName] /\
      (exists parent, Path.parent? s.outputPath = some parent /\
        Path.components parent = Path.components s.directory) /\
      forall (content : List Char) (t : FileTree),
        FileTree.Contained s.directory s.fileName content t
          ((FileTree.disk.writeOutput s.outputPath content).run t).2
          ((FileTree.disk.writeOutput s.outputPath content).run t).1 := by
  refine ⟨Path.isPlainName_iff, fun p o s h => ?_⟩
  have hne := directory_ne_nil h
  obtain ⟨_, taken, _, _, hplain, rfl⟩ := settings_eq_ok.mp h
  exact ⟨Path.fileName?_join hplain _, Path.components_join hplain hne,
    Path.exists_parent_join hplain hne, FileTree.contained_writeOutput hplain hne⟩

/-- A payload whose directory is spelled with more than its names. -/
def withIdleSegments : Payload where
  generator := { output := some ⟨some "./a//b/./".toList⟩ }

theorem output_contained_withIdleSegments :
    withIdleSegments.settings {} = .ok { directory := "./a//b/./".toList } /\
      Path.components "./a//b/./index.ts".toList =
        [.current, .name "a".toList, .name "b".toList, .name "index.ts".toList] := by
  have hok : withIdleSegments.settings {} = .ok { directory := "./a//b/./".toList } :=
    toOption_eq_some.mp (by decide +kernel)
  obtain ⟨_, hcomponents, _⟩ := output_contained.right _ _ _ hok
  exact ⟨hok, hcomponents.trans (by decide)⟩

end Payload

end SchemaTypes
