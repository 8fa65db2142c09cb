import SchemaTypes.Proofs.Disk.Containment

/-!
# Outputs under any path

An output that comes to an end well leaves its file with its content, in directories that
are all there, and one that fails leaves no more than directories that were missing on the
way of the parent.  The fault is that of the directory just where the parent is no
directory in the end.
-/

namespace SchemaTypes

namespace Path

variable {p q : Path}

def around? (p : Path) : Option Path :=
  (parent? p).filter fun q => !q.isEmpty

/-- A path names what stands in the directory, or in one inside it. -/
inductive IsOver : Path -> Path -> Prop
  | around {p q : Path} (h : around? p = some q) : IsOver q p
  | further {p q r : Path} (h : around? p = some q) (hq : IsOver r q) : IsOver r p

theorem around?_facts (h : around? p = some q) :
    q ≠ [] /\ q <+: p /\ IsTrimmed q /\ isAbsolute q = isAbsolute p := by
  obtain ⟨hparent, hne⟩ := Option.filter_eq_some_iff.mp h
  have hne' : q ≠ [] := by simpa using hne
  obtain ⟨hinit, htrimmed, habsolute⟩ := parent?_facts hparent
  exact ⟨hne', hinit, htrimmed, habsolute hne'⟩

/-- The directory around another one leads through all its steps but the last one. -/
theorem names_of_around? (hp : IsTrimmed p) (h : around? p = some q) :
    exists name, names (segments p) = names (segments q) ++ [name] := by
  have hparent := (Option.filter_eq_some_iff.mp h).left
  cases hp with
  | empty => cases hparent
  | dot => cases h
  | top => cases hparent
  | named hsegments hname =>
      obtain ⟨around, haround, _, _, _, hnames, _⟩ := exists_parent hsegments hname
      cases haround.symm.trans hparent
      rw [hnames, hsegments, names_append, names_singleton hname]
      exact ⟨_, rfl⟩

end Path

namespace FileTree

variable {t u v : FileTree} {place : Place} {path q r : Path}

/-!
## Directories under a path
-/

theorem isDirectory_of_pathFault {e : DiskFault} (hne : q ≠ []) (h : pathFault? q = some e)
    (t : FileTree) : t.isDirectory q = false := by
  rw [isDirectory, lookup, follow_of_pathFault hne h]
  rfl

theorem not_exists_ok {ε α : Type} (e : ε) : ¬exists a : α, Except.error e = .ok a := by
  simp

/-- A path without anything behind its last name is that of a directory just where its way
comes to an end. -/
theorem isDirectory_iff (h : Path.IsTrimmed q) (hne : q ≠ []) (t : FileTree) :
    t.isDirectory q = true <-> pathFault? q = none /\ exists place, t.LeadsTo q place := by
  cases h with
  | empty => exact absurd rfl hne
  | dot => exact iff_of_true rfl ⟨rfl, _, rfl⟩
  | top => exact iff_of_true rfl ⟨rfl, _, rfl⟩
  | named hsegments hname =>
      rename_i before name
      cases hfault : pathFault? q with
      | some e => simp [isDirectory_of_pathFault hne hfault t]
      | none =>
          have hfollow := follow_of_named hsegments hname hfault t
          have hidle : ¬Path.isIdle name = true := by simp [hname]
          simp only [LeadsTo, hsegments, Path.names_append, Path.names_singleton hname,
            enterAll_concat, true_and]
          cases henter : t.enterAll (t.start (Path.isAbsolute q)) (Path.names before) with
          | error e =>
              rw [henter] at hfollow
              refine iff_of_false ?_ (not_exists_ok e)
              rw [isDirectory, lookup, hfollow]
              exact Bool.false_ne_true
          | ok around =>
              rw [henter] at hfollow
              simp only [Except.bind]
              rw [enter, if_neg hidle]
              by_cases hup : name = ['.', '.']
              · rw [isDirectory, lookup, hfollow, Except.map, if_pos hup, if_pos hup]
                exact iff_of_true rfl ⟨_, rfl⟩
              · rw [Except.map, if_neg hup] at hfollow
                rw [if_neg hup, isDirectory, lookup_of_name hfollow]
                cases checkName name with
                | error e => exact iff_of_false Bool.false_ne_true (not_exists_ok _)
                | ok _ =>
                    dsimp only [bind, Except.bind]
                    cases t.at? (around ++ [name]) with
                    | none => exact iff_of_false Bool.false_ne_true (not_exists_ok _)
                    | some node =>
                        cases node with
                        | directory => exact iff_of_true rfl ⟨_, rfl⟩
                        | file bytes => exact iff_of_false Bool.false_ne_true (not_exists_ok _)

theorem Keeps.isDirectory {changed : Option Place} (hkeeps : Keeps changed t u)
    (h : Path.IsTrimmed q) (hne : q ≠ []) (hq : t.isDirectory q = true) :
    u.isDirectory q = true := by
  obtain ⟨hfault, place, hplace⟩ := (isDirectory_iff h hne t).mp hq
  exact (isDirectory_iff h hne u).mpr ⟨hfault, place, hkeeps.leadsTo hplace⟩

theorem isDirectory_around (h : Path.IsTrimmed q) (hne : q ≠ []) (hq : t.isDirectory q = true)
    (hr : Path.around? q = some r) : t.isDirectory r = true := by
  obtain ⟨hfault, place, hplace⟩ := (isDirectory_iff h hne t).mp hq
  obtain ⟨hne', hinit, htrimmed, habsolute⟩ := Path.around?_facts hr
  obtain ⟨name, hnames⟩ := Path.names_of_around? h hr
  rw [LeadsTo, hnames, enterAll_concat, ← habsolute] at hplace
  refine (isDirectory_iff htrimmed hne' t).mpr ⟨pathFault?_of_isPrefix hinit hfault, ?_⟩
  obtain ⟨around, haround, _⟩ := bind_eq_ok.mp hplace
  exact ⟨around, haround⟩

theorem isDirectory_of_isOver (hover : Path.IsOver r path)
    (h : forall q, Path.around? path = some q -> t.isDirectory q = true) :
    t.isDirectory r = true := by
  induction hover with
  | around hq => exact h _ hq
  | further hq _ ih =>
      obtain ⟨hne, _, htrimmed, _⟩ := Path.around?_facts hq
      exact ih fun around haround => isDirectory_around htrimmed hne (h _ hq) haround

/-!
## Directories that are made
-/

/-- A place is as it was, or it is a directory on the way of the one around the path, where
nothing was. -/
def IsKeptAround (path : Path) (t u : FileTree) (place : Place) : Prop :=
  u.at? place = t.at? place \/
    (t.at? place = none /\ u.at? place = some .directory /\
      exists q, Path.around? path = some q /\ u.LeadsThrough q place)

theorem Keeps.isKeptAround {changed : Option Place} (hkeeps : Keeps changed u v)
    (hsame : v.at? place = u.at? place) (h : IsKeptAround path t u place) :
    IsKeptAround path t v place := by
  rcases h with hkept | ⟨hfree, hmade, q, hq, hway⟩
  · exact .inl (hsame.trans hkept)
  · exact .inr ⟨hfree, hsame.trans hmade, q, hq, hkeeps.leadsThrough hway⟩

theorem run_prepare (path : Path) (t : FileTree) :
    (disk.prepare path).run t =
      match Path.around? path with
      | none => (.ok (), t)
      | some q =>
          match (disk.ensureDirectories q).run t with
          | (.ok _, u) => (.ok (), u)
          | (.error fault, u) => (.error (.createDirectory q fault), u) := by
  rw [Disk.prepare, Path.around?]
  cases Path.parent? path with
  | none => rfl
  | some q =>
      cases q with
      | nil => rfl
      | cons c rest =>
          have haround : (some (c :: rest)).filter (fun q => !q.isEmpty) = some (c :: rest) := rfl
          rw [haround]
          change StateT.run (disk.ensureDirectories (c :: rest) >>= _) t = _
          rw [run_step]
          dsimp only
          generalize (disk.ensureDirectories (c :: rest)).run t = made
          obtain ⟨answer, u⟩ := made
          cases answer <;> rfl

/-- A directory that is asked for is there in the end, unless that fails, and nothing else
comes of it than directories on its way. -/
theorem ensureDirectories_facts {answer : Except DiskFault Unit} (h : Path.IsTrimmed q)
    (hne : q ≠ []) (hrun : (disk.ensureDirectories q).run t = (answer, u)) :
    Keeps none t u /\ (answer = .ok () <-> u.isDirectory q = true) /\
      forall place, u.at? place = t.at? place \/
        (t.at? place = none /\ u.at? place = some .directory /\ u.LeadsThrough q place) := by
  rw [run_ensureDirectories h] at hrun
  rw [isDirectory_iff h hne]
  cases hfault : pathFault? q with
  | some e =>
      rw [hfault] at hrun
      cases hrun
      exact ⟨.refl t, iff_of_false (by simp) (by simp), fun place => .inl rfl⟩
  | none =>
      have hplaces := at?_makeWay t q
      have hidle := Path.isIdle_of_mem_names (Path.segments q)
      rw [hfault] at hrun
      cases hway : t.makeWay (t.start (Path.isAbsolute q)) (Path.names (Path.segments q)) with
      | mk found w =>
          rw [hway] at hrun hplaces
          cases hrun
          have hkeeps := keeps_of_makeWay hway
          refine ⟨hkeeps, ?_, hplaces⟩
          simp only [LeadsTo, start_of_here hkeeps.here]
          cases found with
          | ok place => exact iff_of_true rfl ⟨trivial, place, enterAll_of_makeWay hidle hway⟩
          | error e =>
              refine iff_of_false (by simp [Except.map]) ?_
              rintro ⟨_, place, hplace⟩
              rcases makeWay_again hidle hway (.refl w) with hagain | ⟨_, hagain, _⟩
              · rw [makeWay_of_enterAll hidle hplace] at hagain
                cases hagain
              · rw [makeWay_of_enterAll hidle hplace] at hagain
                cases hagain

/-- What the directories around a path are when they have been asked for. -/
structure Prepared (path : Path) (t u : FileTree) (answer : Except WriteError Unit) : Prop where
  keeps : Keeps none t u
  frame : forall place, IsKeptAround path t u place
  made : answer = .ok () -> forall q, Path.around? path = some q -> u.isDirectory q = true
  missing : forall e, answer = .error e -> exists q fault, e = .createDirectory q fault /\
    Path.around? path = some q /\ u.isDirectory q = false

theorem prepared (path : Path) (t : FileTree) :
    Prepared path t ((disk.prepare path).run t).2 ((disk.prepare path).run t).1 := by
  have hprepare := run_prepare path t
  cases haround : Path.around? path with
  | none =>
      rw [haround] at hprepare
      rw [hprepare]
      refine ⟨.refl t, fun place => .inl rfl, fun _ q hq => ?_, fun e he => nomatch he⟩
      cases haround.symm.trans hq
  | some q =>
      obtain ⟨hne, _, htrimmed, _⟩ := Path.around?_facts haround
      rw [haround] at hprepare
      dsimp only at hprepare
      cases hrun : (disk.ensureDirectories q).run t with
      | mk answer u =>
          rw [hrun] at hprepare
          obtain ⟨hkeeps, hthere, hplaces⟩ := ensureDirectories_facts htrimmed hne hrun
          have hframe : forall place, IsKeptAround path t u place := by
            intro place
            rcases hplaces place with hsame | ⟨hfree, hmade, hway⟩
            · exact .inl hsame
            · exact .inr ⟨hfree, hmade, q, haround, hway⟩
          cases answer with
          | ok _ =>
              rw [hprepare]
              refine ⟨hkeeps, hframe, fun _ r hr => ?_, fun e he => nomatch he⟩
              cases haround.symm.trans hr
              exact hthere.mp rfl
          | error fault =>
              rw [hprepare]
              refine ⟨hkeeps, hframe, fun hok => (nomatch hok), fun e he => ?_⟩
              cases he
              refine ⟨q, fault, rfl, haround, ?_⟩
              change u.isDirectory q = false
              rw [Bool.eq_false_iff, ne_eq, ← hthere]
              simp

/-!
## Outputs
-/

/-- What an output leaves that has been written: its file with its content and nothing
else in it, the directories over it, and all other places as they were. -/
structure Written (path : Path) (content : List Char) (t u : FileTree) (result : WriteResult) :
    Prop where
  answer : result = .written path (Text.encode content).length
  content : u.readFile path = .ok (Text.encode content)
  directories : forall q, Path.IsOver q path -> u.isDirectory q = true
  frame : exists place, u.place? path = some place /\ t.at? place ≠ some .directory /\
    forall other, other ≠ place -> IsKeptAround path t u other
  here : u.here = t.here

/-- What an output leaves that fails: all places as they were.  Either the directory around
the path is not there in the end, and that is the fault, or the file could not be written
in it. -/
structure Refused (path : Path) (content : List Char) (t u : FileTree) (e : WriteError) :
    Prop where
  frame : forall place, IsKeptAround path t u place
  directory : forall q, (exists fault, e = .createDirectory q fault) <->
    Path.around? path = some q /\ u.isDirectory q = false
  file : (forall q, Path.around? path = some q -> u.isDirectory q = true) ->
    exists fault, e = .writeFile path fault /\
      u.writeFile path (Text.encode content) = .error fault
  here : u.here = t.here

theorem written_of_writeFile {content : List Char} (hprepared : Prepared path t u (.ok ()))
    (hwrite : u.writeFile path (Text.encode content) = .ok v) :
    Written path content t v (.written path (Text.encode content).length) := by
  obtain ⟨parent, name, hfollow, _, hfree, hput⟩ := put_of_writeFile hwrite
  obtain ⟨_, _, hkeeps, hread⟩ := of_writeFile hwrite
  refine ⟨rfl, hread, fun q hq => ?_, ⟨parent ++ [name],
    place?_of_name (hkeeps.follow hfollow), fun hdirectory => ?_, fun other hother => ?_⟩,
    hkeeps.here.trans hprepared.keeps.here⟩
  · refine isDirectory_of_isOver hq fun around haround => ?_
    obtain ⟨hne, _, htrimmed, _⟩ := Path.around?_facts haround
    exact hkeeps.isDirectory htrimmed hne (hprepared.made rfl around haround)
  · exact hfree (hprepared.keeps.directory _ hdirectory)
  · exact hkeeps.isKeptAround (hput ▸ at?_put_ne u hother _) (hprepared.frame other)

theorem refused_of_prepare {content : List Char} {e : WriteError}
    (hprepared : Prepared path t u (.error e)) : Refused path content t u e := by
  obtain ⟨q, fault, rfl, haround, hmissing⟩ := hprepared.missing e rfl
  refine ⟨hprepared.frame, fun r => ⟨?_, ?_⟩, fun hthere => ?_, hprepared.keeps.here⟩
  · rintro ⟨other, hsame⟩
    cases hsame
    exact ⟨haround, hmissing⟩
  · rintro ⟨hr, _⟩
    cases haround.symm.trans hr
    exact ⟨fault, rfl⟩
  · rw [hthere q haround] at hmissing
    cases hmissing

theorem refused_of_writeFile {content : List Char} {fault : DiskFault}
    (hprepared : Prepared path t u (.ok ()))
    (hwrite : u.writeFile path (Text.encode content) = .error fault) :
    Refused path content t u (.writeFile path fault) := by
  refine ⟨hprepared.frame, fun q => ⟨?_, ?_⟩, fun _ => ⟨fault, rfl, hwrite⟩, hprepared.keeps.here⟩
  · rintro ⟨other, hsame⟩
    cases hsame
  · rintro ⟨hq, hmissing⟩
    rw [hprepared.made rfl q hq] at hmissing
    cases hmissing

/-- An output that is kept from the disk is given back with its path, and the tree stays as
it is.  One that is not kept comes to an end, whatever its path and the tree are, as one that
has been written or as one that was refused. -/
theorem output_outcome (path : Path) (content : List Char) (t : FileTree) :
    (disk.output true path content).run t = (.ok (.preview path content), t) /\
      match (disk.output false path content).run t with
      | (.ok result, u) => Written path content t u result
      | (.error e, u) => Refused path content t u e := by
  refine ⟨rfl, ?_⟩
  change match (disk.writeOutput path content).run t with | (.ok result, u) => _ | (.error e, u) => _
  have hprepared := prepared path t
  rw [Disk.writeOutput, run_step]
  generalize (disk.prepare path).run t = made at hprepared
  obtain ⟨answer, u⟩ := made
  cases answer with
  | error e => exact refused_of_prepare hprepared
  | ok _ =>
      dsimp only
      rw [run_step, run_writeFile]
      cases hwrite : u.writeFile path (Text.encode content) with
      | ok v => exact written_of_writeFile hprepared hwrite
      | error fault => exact refused_of_writeFile hprepared hwrite

end FileTree
end SchemaTypes
