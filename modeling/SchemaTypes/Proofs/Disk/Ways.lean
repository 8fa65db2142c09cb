import SchemaTypes.Proofs.Disk.Growth

/-!
# Ways of directories

The directories around a file are made from the outermost one on, as if each name on the
way was entered or made in its turn.  Making them once more changes nothing.  A tree in
which everything stands in a directory stays one, and nothing is found in it behind a
directory that has just been made.
-/

namespace SchemaTypes

namespace FileTree

variable {t u v : FileTree} {place : Place} {path : Path} {before : List (List Char)}
  {name : List Char}

/-!
## Directories that are entered or made
-/

/-- The place of a directory that is entered from another one, or made in it. -/
def enterOrMake (t : FileTree) (place : Place) (name : List Char) :
    Except DiskFault Place × FileTree :=
  if name = ['.', '.'] then (.ok place.dropLast, t)
  else
    match checkName name with
    | .error e => (.error e, t)
    | .ok _ =>
        match t.at? (place ++ [name]) with
        | none => (.ok (place ++ [name]), t.put (place ++ [name]) .directory)
        | some .directory => (.ok (place ++ [name]), t)
        | some (.file _) => (.error .exists, t)

/-- What can come of a directory that is to be entered or made: it was there, it is made,
or its name is too long or taken by a file. -/
theorem enterOrMake_cases (hname : Path.isIdle name = false) (t : FileTree) (place : Place) :
    (exists next, t.enter place name = .ok next /\ t.enterOrMake place name = (.ok next, t)) \/
    (t.enter place name = .error .notFound /\ name ≠ ['.', '.'] /\
      checkName name = .ok () /\ t.at? (place ++ [name]) = none /\
      t.enterOrMake place name = (.ok (place ++ [name]), t.put (place ++ [name]) .directory)) \/
    (exists e, t.enter place name = .error e /\ e ≠ .notFound /\
      (t.enterOrMake place name = (.error e, t) \/
        e = .notDirectory /\ t.enterOrMake place name = (.error .exists, t))) := by
  have hidle : ¬Path.isIdle name = true := by simp [hname]
  unfold enter enterOrMake
  rw [if_neg hidle]
  by_cases hup : name = ['.', '.']
  · rw [if_pos hup, if_pos hup]
    exact .inl ⟨_, rfl, rfl⟩
  · rw [if_neg hup, if_neg hup]
    cases hcheck : checkName name with
    | error e =>
        refine .inr (.inr ⟨e, rfl, ?_, .inl rfl⟩)
        unfold checkName at hcheck
        split at hcheck
        · cases hcheck
          simp
        · cases hcheck
    | ok _ =>
        cases hentry : t.at? (place ++ [name]) with
        | none => exact .inr (.inl ⟨rfl, hup, rfl, rfl, rfl⟩)
        | some node =>
            cases node with
            | directory => exact .inl ⟨_, rfl, rfl⟩
            | file bytes => exact .inr (.inr ⟨.notDirectory, rfl, by simp, .inr ⟨rfl, rfl⟩⟩)

theorem keeps_enterOrMake (t : FileTree) (place : Place) (name : List Char) :
    Keeps none t (t.enterOrMake place name).2 := by
  unfold enterOrMake
  split
  · exact .refl t
  · split
    · exact .refl t
    · split
      · rename_i hentry
        exact keeps_put_directory hentry
      · exact .refl t
      · exact .refl t

theorem enterOrMake_again (t : FileTree) (place : Place) (name : List Char)
    (h : Grows (t.enterOrMake place name).2 v) :
    v.enterOrMake place name = ((t.enterOrMake place name).1, v) := by
  unfold enterOrMake at h ⊢
  by_cases hup : name = ['.', '.']
  · rw [if_pos hup, if_pos hup]
  · rw [if_neg hup] at h
    rw [if_neg hup, if_neg hup]
    cases hcheck : checkName name with
    | error e => rfl
    | ok _ =>
        rw [hcheck] at h
        dsimp only at h ⊢
        cases hentry : t.at? (place ++ [name]) with
        | none =>
            rw [hentry] at h
            rw [h.directory _ (at?_put_self t (by simp) _)]
        | some node =>
            rw [hentry] at h
            cases node with
            | directory => rw [h.directory _ hentry]
            | file bytes =>
                obtain ⟨more, hmore⟩ := h.file _ bytes hentry
                rw [hmore]

theorem enter_of_enterOrMake (hname : Path.isIdle name = false) (t : FileTree) (place : Place)
    (found : Place) (h : (t.enterOrMake place name).1 = .ok found) :
    (t.enterOrMake place name).2.enter place name = .ok found := by
  rcases enterOrMake_cases hname t place with
    ⟨other, hother, hmade⟩ | ⟨_, hup, hcheck, _, hmade⟩ | ⟨e, _, _, hmade | ⟨_, hmade⟩⟩
  · rw [hmade] at h ⊢
    cases h
    exact hother
  · rw [hmade] at h ⊢
    cases h
    dsimp only
    rw [enter, if_neg (by simp [hname]), if_neg hup, hcheck, at?_put_self t (by simp)]
    rfl
  · rw [hmade] at h
    cases h
  · rw [hmade] at h
    cases h

/-- The place at the end of a way whose directories are entered or made one by one. -/
def makeAll (t : FileTree) (place : Place) : List (List Char) -> Except DiskFault Place × FileTree
  | [] => (.ok place, t)
  | name :: rest =>
      match t.enterOrMake place name with
      | (.ok found, u) => u.makeAll found rest
      | (.error e, u) => (.error e, u)

theorem makeAll_cons (t : FileTree) (place : Place) (name : List Char) (rest : List (List Char)) :
    t.makeAll place (name :: rest) =
      match t.enterOrMake place name with
      | (.ok found, u) => u.makeAll found rest
      | (.error e, u) => (.error e, u) :=
  rfl

theorem makeAll_concat (t : FileTree) (place : Place) (parts : List (List Char))
    (last : List Char) :
    t.makeAll place (parts ++ [last]) =
      match t.makeAll place parts with
      | (.ok found, u) => u.enterOrMake found last
      | (.error e, u) => (.error e, u) := by
  induction parts generalizing t place with
  | nil =>
      change t.makeAll place [last] = t.enterOrMake place last
      rw [makeAll_cons]
      generalize t.enterOrMake place last = made
      obtain ⟨answer, u⟩ := made
      cases answer <;> rfl
  | cons part rest ih =>
      rw [List.cons_append, makeAll_cons, makeAll_cons]
      generalize t.enterOrMake place part = made
      obtain ⟨answer, u⟩ := made
      cases answer with
      | error e => rfl
      | ok found => exact ih u found

theorem keeps_makeAll (t : FileTree) (place : Place) (parts : List (List Char)) :
    Keeps none t (t.makeAll place parts).2 := by
  induction parts generalizing t place with
  | nil => exact .refl t
  | cons part rest ih =>
      have hfirst := keeps_enterOrMake t place part
      rw [makeAll_cons]
      generalize t.enterOrMake place part = made at hfirst
      obtain ⟨answer, u⟩ := made
      cases answer with
      | error e => exact hfirst
      | ok found => exact hfirst.trans (ih u found)

theorem makeAll_again {parts : List (List Char)} (h : Grows (t.makeAll place parts).2 v) :
    v.makeAll place parts = ((t.makeAll place parts).1, v) := by
  induction parts generalizing t place with
  | nil => rfl
  | cons part rest ih =>
      rw [makeAll_cons] at h ⊢
      rw [makeAll_cons]
      have hfirst : Grows (t.enterOrMake place part).2 v -> _ := enterOrMake_again t place part
      generalize t.enterOrMake place part = made at h hfirst
      obtain ⟨answer, u⟩ := made
      cases answer with
      | error e => rw [hfirst h]
      | ok found =>
          have hrest := (keeps_makeAll u found rest).grows
          rw [hfirst (hrest.trans h)]
          exact ih h

section

variable {parts : List (List Char)} (hparts : forall part, part ∈ parts -> Path.isIdle part = false)

include hparts

theorem makeAll_of_enterAll {found : Place} (h : t.enterAll place parts = .ok found) :
    t.makeAll place parts = (.ok found, t) := by
  induction parts generalizing place with
  | nil =>
      cases h
      rfl
  | cons part rest ih =>
      rw [enterAll] at h
      obtain ⟨mid, hfirst, hrest⟩ := bind_eq_ok.mp h
      have hmade : t.enterOrMake place part = (.ok mid, t) := by
        rcases enterOrMake_cases (hparts part List.mem_cons_self) t place with
          ⟨other, hother, hmade⟩ | ⟨hother, _⟩ | ⟨e, hother, _⟩
        · cases hother.symm.trans hfirst
          exact hmade
        · cases hother.symm.trans hfirst
        · cases hother.symm.trans hfirst
      rw [makeAll_cons, hmade]
      exact ih (fun other hmem => hparts other (List.mem_cons_of_mem _ hmem)) hrest

theorem enterAll_of_makeAll (t : FileTree) (place : Place) (found : Place)
    (h : (t.makeAll place parts).1 = .ok found) :
    (t.makeAll place parts).2.enterAll place parts = .ok found := by
  induction parts generalizing t place with
  | nil => exact h
  | cons part rest ih =>
      have hfirst := enter_of_enterOrMake (hparts part List.mem_cons_self) t place
      rw [makeAll_cons] at h ⊢
      generalize t.enterOrMake place part = made at h hfirst
      obtain ⟨answer, u⟩ := made
      cases answer with
      | error e => cases h
      | ok mid =>
          dsimp only at h hfirst ⊢
          rw [enterAll, (keeps_makeAll u mid rest).enter (hfirst mid rfl)]
          exact ih (fun other hmem => hparts other (List.mem_cons_of_mem _ hmem)) u mid h

/-- A way that can not be made is blocked from then on, and a file on it is no longer in
the way of a directory but of the way behind it. -/
theorem blocked_of_makeAll {e : DiskFault} (h : (t.makeAll place parts).1 = .error e)
    (hgrows : Grows (t.makeAll place parts).2 v) :
    exists f, v.enterAll place parts = .error f /\ f ≠ .notFound /\
      (f = e \/ e = .exists /\ f = .notDirectory) := by
  induction parts generalizing t place with
  | nil => cases h
  | cons part rest ih =>
      have hrest : forall other, other ∈ rest -> Path.isIdle other = false :=
        fun other hmem => hparts other (List.mem_cons_of_mem _ hmem)
      have hpart := hparts part List.mem_cons_self
      have hkeeps := keeps_enterOrMake t place part
      have hfirst := enter_of_enterOrMake hpart t place
      have hcases := enterOrMake_cases hpart t place
      rw [makeAll_cons] at h hgrows
      generalize t.enterOrMake place part = made at h hgrows hkeeps hfirst hcases
      obtain ⟨answer, u⟩ := made
      cases answer with
      | ok mid =>
          dsimp only at h hgrows hfirst
          have hlater := (keeps_makeAll u mid rest).grows.trans hgrows
          obtain ⟨f, hblocked, hfound, hsame⟩ := ih hrest h hgrows
          refine ⟨f, ?_, hfound, hsame⟩
          have henter := hlater.enter place part (by rw [hfirst mid rfl]; simp)
          rw [enterAll, henter, hfirst mid rfl]
          exact hblocked
      | error e' =>
          cases h
          have hlater := hkeeps.grows.trans hgrows
          rcases hcases with ⟨_, _, hmade⟩ | ⟨_, _, _, _, hmade⟩ | ⟨f, hf, hfound, hmade⟩
          · cases hmade
          · cases hmade
          · refine ⟨f, ?_, hfound, ?_⟩
            · rw [enterAll, hlater.enter place part (by rw [hf]; simpa using hfound), hf]
              rfl
            · rcases hmade with hmade | ⟨hf, hmade⟩
              · cases hmade
                exact .inl rfl
              · cases hmade
                exact .inr ⟨rfl, hf⟩

end

/-!
## Ways that are made
-/

/-- The place at the end of a way whose directories are made.  Nothing is made on a way
that is blocked before its last name. -/
def makeWay (t : FileTree) (place : Place) (parts : List (List Char)) :
    Except DiskFault Place × FileTree :=
  match t.enterAll place parts.dropLast with
  | .ok _ => t.makeAll place parts
  | .error e => if e = .notFound then t.makeAll place parts else (.error e, t)

theorem makeWay_cases (t : FileTree) (place : Place) (parts : List (List Char)) :
    (exists e, t.enterAll place parts.dropLast = .error e /\ e ≠ .notFound /\
      t.makeWay place parts = (.error e, t)) \/
    ((forall e, t.enterAll place parts.dropLast = .error e -> e = .notFound) /\
      t.makeWay place parts = t.makeAll place parts) := by
  unfold makeWay
  cases henter : t.enterAll place parts.dropLast with
  | ok found =>
      refine .inr ⟨fun e he => ?_, rfl⟩
      cases he
  | error e =>
      by_cases hfound : e = .notFound
      · refine .inr ⟨fun f hf => ?_, if_pos hfound⟩
        cases hf
        exact hfound
      · exact .inl ⟨e, rfl, hfound, if_neg hfound⟩

theorem keeps_makeWay (t : FileTree) (place : Place) (parts : List (List Char)) :
    Keeps none t (t.makeWay place parts).2 := by
  rcases makeWay_cases t place parts with ⟨e, _, _, hway⟩ | ⟨_, hway⟩
  · rw [hway]
    exact .refl t
  · rw [hway]
    exact keeps_makeAll t place parts

theorem enterAll_of_makeWay {parts : List (List Char)} {found : Place}
    (hparts : forall part, part ∈ parts -> Path.isIdle part = false)
    (h : t.makeWay place parts = (.ok found, u)) : u.enterAll place parts = .ok found := by
  rcases makeWay_cases t place parts with ⟨e, _, _, hway⟩ | ⟨_, hway⟩
  · cases hway.symm.trans h
  · have hmade := hway.symm.trans h
    have henter := enterAll_of_makeAll hparts t place found
    rw [hmade] at henter
    exact henter rfl

theorem keeps_of_makeWay {parts : List (List Char)} {answer : Except DiskFault Place}
    (h : t.makeWay place parts = (answer, u)) : Keeps none t u := by
  have hkeeps := keeps_makeWay t place parts
  rw [h] at hkeeps
  exact hkeeps

theorem makeWay_of_enterAll {parts : List (List Char)} {found : Place}
    (hparts : forall part, part ∈ parts -> Path.isIdle part = false)
    (h : t.enterAll place parts = .ok found) : t.makeWay place parts = (.ok found, t) := by
  rcases makeWay_cases t place parts with ⟨e, he, _, _⟩ | ⟨_, hmade⟩
  · rw [enterAll_of_dropLast he] at h
    cases h
  · rw [hmade, makeAll_of_enterAll hparts h]

theorem makeWay_of_missing {parts : List (List Char)}
    (h : t.enterAll place parts = .error .notFound) :
    t.makeWay place parts = t.makeAll place parts := by
  rcases makeWay_cases t place parts with ⟨e, he, hfound, _⟩ | ⟨_, hmade⟩
  · rw [enterAll_of_dropLast he] at h
    cases h
    exact absurd rfl hfound
  · exact hmade

section

variable {init : List (List Char)} (last : List Char)

theorem makeAll_concat_of_error {e : DiskFault} (h : (t.makeAll place init).1 = .error e) :
    t.makeAll place (init ++ [last]) = t.makeAll place init := by
  rw [makeAll_concat]
  generalize t.makeAll place init = made at h
  obtain ⟨answer, u⟩ := made
  cases h
  rfl

theorem keeps_makeAll_concat :
    Keeps none (t.makeAll place init).2 (t.makeAll place (init ++ [last])).2 := by
  rw [makeAll_concat]
  generalize t.makeAll place init = made
  obtain ⟨answer, u⟩ := made
  cases answer with
  | error e => exact .refl u
  | ok found => exact keeps_enterOrMake u found last

variable (hinit : forall part, part ∈ init -> Path.isIdle part = false)

include hinit

/-- A way that could not be made is blocked before its last name.  The reason stays, except
where a file was found behind a directory that was missing before. -/
theorem makeWay_again_of_error {e : DiskFault}
    (hmissing : forall f, t.enterAll place init = .error f -> f = .notFound)
    (hmade : (t.makeAll place init).1 = .error e) (hgrows : Grows (t.makeAll place init).2 v) :
    v.makeWay place (init ++ [last]) = (.error e, v) \/
    (e = .exists /\ v.makeWay place (init ++ [last]) = (.error .notDirectory, v) /\
      t.enterAll place (init ++ [last]) = .error .notFound) := by
  obtain ⟨f, hblocked, hf, hreason⟩ := blocked_of_makeAll hinit hmade hgrows
  have hlater : v.makeWay place (init ++ [last]) = (.error f, v) := by
    rw [makeWay, List.dropLast_concat, hblocked]
    exact if_neg hf
  have henter : t.enterAll place init = .error .notFound := by
    cases henter : t.enterAll place init with
    | error g => rw [hmissing g henter]
    | ok found =>
        rw [makeAll_of_enterAll hinit henter] at hmade
        cases hmade
  rw [hlater]
  rcases hreason with rfl | ⟨hexists, rfl⟩
  · exact .inl rfl
  · refine .inr ⟨hexists, rfl, ?_⟩
    rw [enterAll_concat, henter]
    rfl

end

/-- A way that is made once more is as it was, and so is the reason for which it can not
be made, except where a file was found behind a directory that was missing before. -/
theorem makeWay_again {parts : List (List Char)} {answer : Except DiskFault Place}
    (hparts : forall part, part ∈ parts -> Path.isIdle part = false)
    (hmade : t.makeWay place parts = (answer, u)) (hgrows : Grows u v) :
    v.makeWay place parts = (answer, v) \/
    (answer = .error .exists /\ v.makeWay place parts = (.error .notDirectory, v) /\
      t.enterAll place parts = .error .notFound /\ (t.makeAll place parts).1 = .error .exists) := by
  have hanswer : (t.makeWay place parts).1 = answer := by rw [hmade]
  have htree : (t.makeWay place parts).2 = u := by rw [hmade]
  rw [← htree] at hgrows
  rw [← hanswer]
  rcases makeWay_cases t place parts with ⟨e, henter, hfound, hway⟩ | ⟨hmissing, hway⟩
  · rw [hway] at hgrows ⊢
    have hlater := hgrows.enterAll place parts.dropLast
      (by rw [henter]; simpa using hfound)
    rw [makeWay, hlater, henter]
    exact .inl (if_neg hfound)
  · rw [hway] at hgrows ⊢
    have hmade := makeAll_again hgrows
    cases List.eq_nil_or_concat parts with
    | inl hnil =>
        refine .inl ?_
        subst hnil
        exact hmade
    | inr hconcat =>
        obtain ⟨init, last, hparts'⟩ := hconcat
        rw [List.concat_eq_append] at hparts'
        subst hparts'
        rw [List.dropLast_concat] at hmissing
        have hinit : forall part, part ∈ init -> Path.isIdle part = false :=
          fun part hmem => hparts part (List.mem_append_left _ hmem)
        cases hfirst : (t.makeAll place init).1 with
        | ok found =>
            have henter := enterAll_of_makeAll hinit t place found hfirst
            have hlater := ((keeps_makeAll_concat last).grows.trans hgrows).enterAll place init
              (by rw [henter]; simp)
            refine .inl ?_
            rw [makeWay, List.dropLast_concat, hlater, henter]
            exact hmade
        | error e =>
            rw [makeAll_concat_of_error last hfirst] at hgrows ⊢
            rw [hfirst]
            rcases makeWay_again_of_error last hinit hmissing hfirst hgrows with
              hagain | ⟨hexists, hagain, henter⟩
            · exact .inl hagain
            · exact .inr ⟨congrArg Except.error hexists, hagain, henter, congrArg Except.error hexists⟩

/-!
## Chains of directories
-/

theorem start_of_here (h : u.here = t.here) (absolute : Bool) :
    u.start absolute = t.start absolute := by
  rw [start, start, h]

theorem run_ensureDirectory_of_named (hsegments : Path.segments path = before ++ [name])
    (hname : Path.isIdle name = false) (hpath : pathFault? path = none) (t : FileTree) :
    (disk.ensureDirectory path).run t =
      match t.enterAll (t.start (Path.isAbsolute path)) (Path.names before) with
      | .error e => (.error e, t)
      | .ok place => ((t.enterOrMake place name).1.map fun _ => (), (t.enterOrMake place name).2) := by
  have hfollow := follow_of_named hsegments hname hpath t
  rw [run_ensureDirectory]
  cases henter : t.enterAll (t.start (Path.isAbsolute path)) (Path.names before) with
  | error e =>
      rw [henter] at hfollow
      have hmake : t.makeDirectory path = .error e := by
        rw [makeDirectory, hfollow]
        rfl
      rw [hmake]
      cases e with
      | «exists» => exact absurd henter (enterAll_ne_exists _ _ _)
      | _ => rfl
  | ok place =>
      rw [henter] at hfollow
      dsimp only
      by_cases hup : name = ['.', '.']
      · have hdirectory : t.follow path = .ok (.directory place.dropLast) := by
          rw [hfollow, hup]
          rfl
        have hmake : t.makeDirectory path = .error .exists := by
          rw [makeDirectory, hdirectory]
          rfl
        have hthere : t.isDirectory path = true := by
          rw [isDirectory, lookup, hdirectory]
          rfl
        rw [hmake, hthere, enterOrMake, if_pos hup]
        rfl
      · have hnamed : t.follow path = .ok (.name place name false) := by
          rw [hfollow]
          exact congrArg Except.ok (if_neg hup)
        rw [makeDirectory_of_name hnamed, enterOrMake, if_neg hup, isDirectory,
          lookup_of_name hnamed]
        cases hcheck : checkName name with
        | error e =>
            unfold checkName at hcheck
            split at hcheck
            · cases hcheck
              rfl
            · cases hcheck
        | ok _ =>
            cases t.at? (place ++ [name]) with
            | none => rfl
            | some node => cases node <;> rfl

/-- A chain of directories is made like the way through its names. -/
theorem run_ensureChain {absolute : Bool} {parts : List (List Char)} {paths : List Path}
    (hchain : Path.IsChain absolute parts paths)
    (hpaths : forall q, q ∈ paths -> pathFault? q = none) (t : FileTree) :
    (disk.ensureChain paths).run t =
      ((t.makeWay (t.start absolute) parts).1.map fun _ => (),
        (t.makeWay (t.start absolute) parts).2) := by
  induction hchain generalizing t with
  | empty => rfl
  | dot habsolute => rfl
  | named habsolute hsegments hname haround ih =>
      rename_i p before name around
      have hrest := ih fun q hmem => hpaths q (List.mem_cons_of_mem _ hmem)
      have hensure := run_ensureDirectory_of_named hsegments hname (hpaths p List.mem_cons_self)
      rw [habsolute] at hensure
      have hidle := Path.isIdle_of_mem_names before
      cases henter : t.enterAll (t.start absolute) (Path.names before) with
      | ok place =>
          have hway : t.makeWay (t.start absolute) (Path.names before ++ [name]) =
              t.enterOrMake place name := by
            rw [makeWay, List.dropLast_concat, henter, makeAll_concat,
              makeAll_of_enterAll hidle henter]
          rw [Disk.ensureChain, run_step, hensure, henter, hway]
          dsimp only
          rcases enterOrMake_cases hname t place with
            ⟨_, _, hmade⟩ | ⟨_, _, _, _, hmade⟩ | ⟨e, _, hfound, hmade | ⟨_, hmade⟩⟩
          · rw [hmade]
            rfl
          · rw [hmade]
            rfl
          · rw [hmade]
            cases e with
            | notFound => exact absurd rfl hfound
            | _ => rfl
          · rw [hmade]
            rfl
      | error e =>
          by_cases hmissing : e = .notFound
          · subst hmissing
            have hway : t.makeWay (t.start absolute) (Path.names before ++ [name]) =
                match t.makeAll (t.start absolute) (Path.names before) with
                | (.ok found, u) => u.enterOrMake found name
                | (.error e, u) => (.error e, u) := by
              rw [makeWay, List.dropLast_concat, henter, ← makeAll_concat]
              exact if_pos rfl
            have hplace := enterAll_of_makeAll hidle t (t.start absolute)
            have hhere := (keeps_makeAll t (t.start absolute) (Path.names before)).here
            rw [Disk.ensureChain, run_step, hensure, henter, hway]
            dsimp only
            rw [run_step, hrest, makeWay_of_missing henter]
            generalize t.makeAll (t.start absolute) (Path.names before) = made at hplace hhere
            obtain ⟨answer, u⟩ := made
            cases answer with
            | error e => rfl
            | ok found =>
                change (disk.ensureDirectory p).run u = _
                rw [hensure, start_of_here hhere, hplace found rfl]
          · have hway : t.makeWay (t.start absolute) (Path.names before ++ [name]) =
                (.error e, t) := by
              rw [makeWay, List.dropLast_concat, henter]
              exact if_neg hmissing
            rw [Disk.ensureChain, run_step, hensure, henter, hway]
            cases e with
            | notFound => exact absurd rfl hmissing
            | _ => rfl

/-!
## Trees whose files stand in directories
-/

/-- Everything stands in a directory, and paths start in one. -/
structure IsRooted (t : FileTree) : Prop where
  here : t.at? t.here = some .directory
  around : forall place name node, t.at? (place ++ [name]) = some node ->
    t.at? place = some .directory

namespace IsRooted

variable (h : t.IsRooted)

include h

theorem put (hplace : t.at? place = some .directory)
    (hfree : t.at? (place ++ [name]) ≠ some .directory) (node : Node) :
    (t.put (place ++ [name]) node).IsRooted := by
  have hkeeps : forall other, t.at? other = some .directory ->
      (t.put (place ++ [name]) node).at? other = some .directory := by
    intro other hother
    have hne : other ≠ place ++ [name] := by
      rintro rfl
      exact hfree hother
    rw [at?_put_ne t hne, hother]
  refine ⟨hkeeps _ h.here, fun other last found hfound => ?_⟩
  by_cases hsame : other ++ [last] = place ++ [name]
  · rw [(List.append_inj' hsame rfl).left]
    exact hkeeps place hplace
  · rw [at?_put_ne t hsame] at hfound
    exact hkeeps other (h.around other last found hfound)

theorem dropLast (hplace : t.at? place = some .directory) :
    t.at? place.dropLast = some .directory := by
  cases List.eq_nil_or_concat place with
  | inl hnil =>
      rw [hnil]
      rfl
  | inr hconcat =>
      obtain ⟨init, last, hinit⟩ := hconcat
      rw [List.concat_eq_append] at hinit
      rw [hinit] at hplace
      rw [hinit, List.dropLast_concat]
      exact h.around init last _ hplace

theorem start (absolute : Bool) : t.at? (t.start absolute) = some .directory := by
  cases absolute with
  | true => rfl
  | false => exact h.here

theorem enterOrMake (hplace : t.at? place = some .directory) (name : List Char) :
    (t.enterOrMake place name).2.IsRooted /\
      forall found, (t.enterOrMake place name).1 = .ok found ->
        (t.enterOrMake place name).2.at? found = some .directory := by
  unfold FileTree.enterOrMake
  split
  · refine ⟨h, fun found hfound => ?_⟩
    cases hfound
    exact h.dropLast hplace
  · split
    · refine ⟨h, fun found hfound => ?_⟩
      cases hfound
    · split
      · rename_i hentry
        refine ⟨h.put hplace (by rw [hentry]; simp) _, fun found hfound => ?_⟩
        cases hfound
        exact at?_put_self t (by simp) _
      · rename_i hentry
        refine ⟨h, fun found hfound => ?_⟩
        cases hfound
        exact hentry
      · refine ⟨h, fun found hfound => ?_⟩
        cases hfound

theorem makeAll (hplace : t.at? place = some .directory) (parts : List (List Char)) :
    (t.makeAll place parts).2.IsRooted /\
      forall found, (t.makeAll place parts).1 = .ok found ->
        (t.makeAll place parts).2.at? found = some .directory := by
  induction parts generalizing t place with
  | nil =>
      refine ⟨h, fun found hfound => ?_⟩
      cases hfound
      exact hplace
  | cons part rest ih =>
      have hfirst := h.enterOrMake hplace part
      rw [makeAll_cons]
      generalize t.enterOrMake place part = made at hfirst
      obtain ⟨answer, u⟩ := made
      cases answer with
      | error e =>
          refine ⟨hfirst.left, fun found hfound => ?_⟩
          cases hfound
      | ok mid => exact ih hfirst.left (hfirst.right mid rfl)

theorem makeWay (hplace : t.at? place = some .directory) (parts : List (List Char)) :
    (t.makeWay place parts).2.IsRooted /\
      forall found, (t.makeWay place parts).1 = .ok found ->
        (t.makeWay place parts).2.at? found = some .directory := by
  rcases makeWay_cases t place parts with ⟨e, _, _, hway⟩ | ⟨_, hway⟩
  · rw [hway]
    refine ⟨h, fun found hfound => ?_⟩
    cases hfound
  · rw [hway]
    exact h.makeAll hplace parts

theorem at?_append (hplace : t.at? place = none) (rest : Place) : t.at? (place ++ rest) = none := by
  induction rest using List.reverseRecOn with
  | nil => rw [List.append_nil, hplace]
  | append_singleton init last ih =>
      cases hentry : t.at? (place ++ (init ++ [last])) with
      | none => rfl
      | some node =>
          rw [← List.append_assoc] at hentry
          rw [h.around _ last node hentry] at ih
          cases ih

end IsRooted

/-- No file is in the way of directories that are made where there is nothing. -/
theorem makeAll_ne_exists_of_free {parts : List (List Char)}
    (hfree : forall name rest, t.at? (place ++ name :: rest) = none)
    (hup : ['.', '.'] ∉ parts) : (t.makeAll place parts).1 ≠ .error .exists := by
  induction parts generalizing t place with
  | nil => simp [makeAll]
  | cons part rest ih =>
      rw [List.mem_cons, not_or] at hup
      have hmade : t.enterOrMake place part = (.error .nameTooLong, t) \/
          t.enterOrMake place part =
            (.ok (place ++ [part]), t.put (place ++ [part]) .directory) := by
        rw [enterOrMake, if_neg (Ne.symm hup.left), hfree part []]
        unfold checkName
        by_cases hlong : longestName < Text.byteLength part
        · rw [if_pos hlong]
          exact .inl rfl
        · rw [if_neg hlong]
          exact .inr rfl
      rw [makeAll_cons]
      rcases hmade with hmade | hmade
      · rw [hmade]
        simp
      · rw [hmade]
        refine ih (fun other more => ?_) hup.right
        have hne : place ++ [part] ++ other :: more ≠ place ++ [part] := by simp
        rw [at?_put_ne t hne, List.append_assoc]
        exact hfree part (other :: more)

/-- A file that is in the way of directories that are made was there before, with all
that is before it on the way, unless the way goes up. -/
theorem IsRooted.makeAll_ne_exists {parts : List (List Char)} (h : t.IsRooted)
    (hparts : forall part, part ∈ parts -> Path.isIdle part = false) (hup : ['.', '.'] ∉ parts)
    (hmissing : t.enterAll place parts = .error .notFound) :
    (t.makeAll place parts).1 ≠ .error .exists := by
  induction parts generalizing place with
  | nil => cases hmissing
  | cons part rest ih =>
      rw [List.mem_cons, not_or] at hup
      rw [FileTree.enterAll] at hmissing
      rw [makeAll_cons]
      rcases enterOrMake_cases (hparts part List.mem_cons_self) t place with
        ⟨found, henter, hmade⟩ | ⟨_, _, _, hfree, hmade⟩ | ⟨e, henter, hfound, _⟩
      · rw [henter] at hmissing
        rw [hmade]
        exact ih (fun other hmem => hparts other (List.mem_cons_of_mem _ hmem)) hup.right hmissing
      · rw [hmade]
        refine makeAll_ne_exists_of_free (fun other more => ?_) hup.right
        have hne : place ++ [part] ++ other :: more ≠ place ++ [part] := by simp
        rw [at?_put_ne t hne]
        exact h.at?_append hfree (other :: more)
      · rw [henter] at hmissing
        cases hmissing
        exact absurd rfl hfound

end FileTree
end SchemaTypes
