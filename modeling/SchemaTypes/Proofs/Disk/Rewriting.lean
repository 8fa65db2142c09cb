import SchemaTypes.Output
import SchemaTypes.Proofs.Disk.Ways

/-!
# Writing once more

A run that has left its files in a tree can be repeated there: every directory it made is
there, every file it wrote is a file, and what it writes over them in the end is what they
hold.  The runs in between are repeated while later writes are still in the tree, so a
step is repeated in any tree that has grown from the one it left.
-/

namespace SchemaTypes

namespace FileTree

variable {t u v : FileTree} {place other : Place} {path : Path}

/-!
## Entries that are put twice
-/

theorem putEntry_putEntry_self (place : Place) (n m : Node) (es : List (Place × Node)) :
    putEntry place m (putEntry place n es) = putEntry place m es := by
  induction es with
  | nil => simp [putEntry]
  | cons e es ih =>
      obtain ⟨p, k⟩ := e
      rw [putEntry, putEntry]
      split
      · rw [putEntry, if_pos rfl]
      · rename_i hne
        rw [putEntry, if_neg hne, ih]

theorem putEntry_of_findEntry {node : Node} {es : List (Place × Node)}
    (h : findEntry place es = some node) : putEntry place node es = es := by
  induction es with
  | nil => cases h
  | cons e es ih =>
      obtain ⟨p, k⟩ := e
      rw [findEntry] at h
      rw [putEntry]
      split at h
      · rename_i hp
        cases h
        rw [if_pos hp, hp]
      · rename_i hp
        rw [if_neg hp, ih h]

/-- Entries can be put in any order where the first one is there already. -/
theorem putEntry_comm {node : Node} {es : List (Place × Node)} (hne : place ≠ other)
    (h : findEntry place es = some node) (n m : Node) :
    putEntry other m (putEntry place n es) = putEntry place n (putEntry other m es) := by
  induction es with
  | nil => cases h
  | cons e es ih =>
      obtain ⟨p, k⟩ := e
      rw [findEntry] at h
      by_cases hp : p = place
      · have hother : p ≠ other := fun heq => hne (hp.symm.trans heq)
        rw [putEntry, if_pos hp, putEntry, if_neg hne, putEntry, if_neg hother, putEntry,
          if_pos hp]
      · rw [if_neg hp] at h
        by_cases hother : p = other
        · rw [putEntry, if_neg hp, putEntry, if_pos hother, putEntry, if_pos hother, putEntry,
            if_neg (Ne.symm hne)]
        · rw [putEntry, if_neg hp, putEntry, if_neg hother, putEntry, if_neg hother, putEntry,
            if_neg hp, ih h]

theorem put_put_self (t : FileTree) (place : Place) (n m : Node) :
    (t.put place n).put place m = t.put place m := by
  rw [put, put, put, putEntry_putEntry_self]

section

variable {node : Node} (hplace : place ≠ []) (h : t.at? place = some node)

include hplace h

theorem put_of_at? : t.put place node = t := by
  rw [at?, if_neg hplace] at h
  rw [put, putEntry_of_findEntry h]

theorem put_comm (hne : place ≠ other) (n m : Node) :
    (t.put place n).put other m = (t.put other m).put place n := by
  rw [at?, if_neg hplace] at h
  rw [put, put, put, put, putEntry_comm hne h]

end

/-!
## Writes
-/

structure Write where
  place : Place
  bytes : List UInt8

def putAll (t : FileTree) : List Write -> FileTree
  | [] => t
  | w :: rest => (t.put w.place (.file w.bytes)).putAll rest

def Holds (t : FileTree) : List Write -> Prop
  | [] => True
  | w :: rest =>
      (w.place ∉ rest.map Write.place -> t.at? w.place = some (.file w.bytes)) /\ t.Holds rest

theorem ne_nil_of_file {bytes : List UInt8} (h : t.at? place = some (.file bytes)) : place ≠ [] := by
  rintro rfl
  cases h

theorem Holds.exists_file {ws : List Write} (h : t.Holds ws)
    (hplace : place ∈ ws.map Write.place) : exists bytes, t.at? place = some (.file bytes) := by
  induction ws with
  | nil => cases hplace
  | cons w rest ih =>
      by_cases hlater : place ∈ rest.map Write.place
      · exact ih h.right hlater
      · rw [List.map_cons, List.mem_cons] at hplace
        cases hplace with
        | inl heq =>
            rw [heq] at hlater ⊢
            exact ⟨w.bytes, h.left hlater⟩
        | inr hmem => exact absurd hmem hlater

theorem Holds.append {ws more : List Write} (h : t.Holds ws) (hmore : u.Holds more)
    (hkeeps : forall place bytes, place ∉ more.map Write.place ->
      t.at? place = some (.file bytes) -> u.at? place = some (.file bytes)) :
    u.Holds (ws ++ more) := by
  induction ws with
  | nil => exact hmore
  | cons w rest ih =>
      refine ⟨fun hlast => ?_, ih h.right⟩
      rw [List.append_eq, List.map_append, List.mem_append, not_or] at hlast
      exact hkeeps _ _ hlast.right (h.left hlast.left)

theorem putAll_put {ws : List Write} {bytes : List UInt8}
    (hthere : t.at? place = some (.file bytes)) (hlater : place ∈ ws.map Write.place)
    (node : Node) : (t.put place node).putAll ws = t.putAll ws := by
  induction ws generalizing t with
  | nil => cases hlater
  | cons w rest ih =>
      have hplace := ne_nil_of_file hthere
      rw [putAll, putAll]
      by_cases hsame : place = w.place
      · rw [← hsame, put_put_self]
      · rw [put_comm hplace hthere hsame]
        rw [List.map_cons, List.mem_cons] at hlater
        refine ih ?_ (hlater.resolve_left hsame)
        rw [at?_put_ne t hsame, hthere]

/-- Files that hold what they got last are not changed by getting it again. -/
theorem putAll_of_holds {ws : List Write} (h : t.Holds ws) : t.putAll ws = t := by
  induction ws with
  | nil => rfl
  | cons w rest ih =>
      rw [putAll]
      by_cases hlater : w.place ∈ rest.map Write.place
      · obtain ⟨bytes, hthere⟩ := h.exists_file (List.mem_cons_of_mem _ hlater)
        rw [putAll_put hthere hlater, ih h.right]
      · have hthere := h.left hlater
        rw [put_of_at? (ne_nil_of_file hthere) hthere, ih h.right]

theorem putAll_append (t : FileTree) (ws more : List Write) :
    t.putAll (ws ++ more) = (t.putAll ws).putAll more := by
  induction ws generalizing t with
  | nil => rfl
  | cons w rest ih => exact ih _

theorem grows_putAll {ws : List Write}
    (h : forall place, place ∈ ws.map Write.place ->
      exists bytes, t.at? place = some (.file bytes)) : Grows t (t.putAll ws) := by
  induction ws generalizing t with
  | nil => exact .refl t
  | cons w rest ih =>
      obtain ⟨old, hold⟩ := h w.place List.mem_cons_self
      have hfile : t.at? w.place ≠ some .directory := by
        rw [hold]
        simp
      have hfirst := grows_put_file hfile w.bytes
      refine hfirst.trans (ih fun place hplace => ?_)
      obtain ⟨bytes, hbytes⟩ := h place (List.mem_cons_of_mem _ hplace)
      exact hfirst.file place bytes hbytes

/-!
## Runs that can be repeated
-/

/-- A run whose answer is one of the same kind, and which does no more than to write what
it has written, when it is run in a tree that has grown from the one it leaves. -/
structure Repeats {α : Type} (same : α -> α -> Prop) (x : StateM FileTree α) (t : FileTree)
    (ws : List Write) : Prop where
  grows : Grows t (x.run t).2
  keeps : forall place bytes, place ∉ ws.map Write.place ->
    t.at? place = some (.file bytes) -> (x.run t).2.at? place = some (.file bytes)
  holds : (x.run t).2.Holds ws
  rooted : t.IsRooted -> (x.run t).2.IsRooted
  again : forall v, Grows (x.run t).2 v ->
    same (x.run t).1 (x.run v).1 /\ (x.run v).2 = v.putAll ws

namespace Repeats

variable {α β : Type} {same : α -> α -> Prop} {x : StateM FileTree α} {ws : List Write}

theorem of_unchanged {a : α} (hsame : same a a) (hrun : forall v, x.run v = (a, v)) :
    Repeats same x t [] := by
  refine ⟨?_, fun place bytes _ hplace => ?_, trivial, fun hrooted => ?_, fun v _ => ?_⟩
  · rw [hrun]
    exact .refl t
  · rw [hrun]
    exact hplace
  · rw [hrun]
    exact hrooted
  · rw [hrun, hrun]
    exact ⟨hsame, rfl⟩

theorem of_answer (h : Repeats same x t ws) {same' : β -> β -> Prop} {y : StateM FileTree β}
    (f : α -> β) (hsame : forall a b, same a b -> same' (f a) (f b))
    (hrun : forall v, y.run v = (f (x.run v).1, (x.run v).2)) : Repeats same' y t ws := by
  refine ⟨?_, ?_, ?_, ?_, fun v hgrows => ?_⟩
  · rw [hrun]
    exact h.grows
  · rw [hrun]
    exact h.keeps
  · rw [hrun]
    exact h.holds
  · rw [hrun]
    exact h.rooted
  · rw [hrun] at hgrows ⊢
    rw [hrun]
    obtain ⟨ha, hv⟩ := h.again v hgrows
    exact ⟨hsame _ _ ha, hv⟩

/-- One run after the other can be repeated, where the first one writes under what the
second one has written, and the second one writes it again. -/
theorem append {same' : List β -> List β -> Prop} {x y z : StateM FileTree (List β)}
    {more : List Write} (hx : Repeats same' x t ws) (hy : Repeats same' y (x.run t).2 more)
    (hsame : forall a a' b b', same' a a' -> same' b b' -> same' (a ++ b) (a' ++ b'))
    (hrun : forall v, z.run v = ((x.run v).1 ++ (y.run (x.run v).2).1, (y.run (x.run v).2).2)) :
    Repeats same' z t (ws ++ more) := by
  refine ⟨?_, fun place bytes hplace hbytes => ?_, ?_, fun hrooted => ?_, fun v hgrows => ?_⟩
  · rw [hrun]
    exact hx.grows.trans hy.grows
  · rw [hrun]
    rw [List.map_append, List.mem_append, not_or] at hplace
    exact hy.keeps place bytes hplace.right (hx.keeps place bytes hplace.left hbytes)
  · rw [hrun]
    exact hx.holds.append hy.holds hy.keeps
  · rw [hrun]
    exact hy.rooted (hx.rooted hrooted)
  · rw [hrun] at hgrows ⊢
    rw [hrun]
    dsimp only at hgrows ⊢
    obtain ⟨ha, hmid⟩ := hx.again v (hy.grows.trans hgrows)
    have hfiles : forall place, place ∈ ws.map Write.place ->
        exists bytes, v.at? place = some (.file bytes) := by
      intro place hplace
      obtain ⟨bytes, hbytes⟩ := hx.holds.exists_file hplace
      exact (hy.grows.trans hgrows).file place bytes hbytes
    obtain ⟨hb, hlast⟩ := hy.again (v.putAll ws) (hgrows.trans (grows_putAll hfiles))
    rw [hmid]
    exact ⟨hsame _ _ _ _ ha hb, by rw [hlast, putAll_append]⟩

theorem run_again (h : Repeats same x t ws) :
    same (x.run t).1 (x.run (x.run t).2).1 /\ (x.run (x.run t).2).2 = (x.run t).2 := by
  obtain ⟨hsame, hv⟩ := h.again _ (.refl _)
  exact ⟨hsame, hv.trans (putAll_of_holds h.holds)⟩

end Repeats

/-!
## Outputs
-/

def Climbs (path : Path) : Prop :=
  ['.', '.'] ∈ Path.segments path

/-- The answer to a write that is repeated.  It is the same, unless directories could not
be made: where a file was found behind a directory that was missing before, that directory
is there the next time, and then the file is not one.  In a tree whose files stand in
directories that takes a path that goes up. -/
inductive AnswersAgain (rooted : Prop) :
    Except WriteError WriteResult -> Except WriteError WriteResult -> Prop
  | same (answer : Except WriteError WriteResult) : AnswersAgain rooted answer answer
  | blocked (path : Path) (hclimbs : rooted -> Climbs path) :
      AnswersAgain rooted (.error (.createDirectory path .exists))
        (.error (.createDirectory path .notDirectory))

theorem run_ensureDirectories {q : Path} (h : Path.IsTrimmed q) (t : FileTree) :
    (disk.ensureDirectories q).run t =
      match pathFault? q with
      | some e => (.error e, t)
      | none =>
          ((t.makeWay (t.start (Path.isAbsolute q)) (Path.names (Path.segments q))).1.map fun _ => (),
            (t.makeWay (t.start (Path.isAbsolute q)) (Path.names (Path.segments q))).2) := by
  cases hfault : pathFault? q with
  | none =>
      exact run_ensureChain (Path.isChain_chain h)
        (fun p hp => pathFault?_of_isPrefix (Path.isPrefix_of_mem_chain h hp) hfault) t
  | some e =>
      cases h with
      | empty => cases hfault
      | dot => cases hfault
      | top => cases hfault
      | named hsegments hname =>
          rename_i before name
          have hne : q ≠ [] := by
            rintro rfl
            cases hfault
          obtain ⟨around, hparent, _⟩ := Path.exists_parent hsegments hname
          have hchain : exists more, Path.chain q = q :: more := by
            rw [Path.chain, Path.chainFrom, hparent, if_neg (by simpa using hne)]
            exact ⟨_, rfl⟩
          obtain ⟨more, hmore⟩ := hchain
          have hmake : t.makeDirectory q = .error e := by
            rw [makeDirectory, follow_of_pathFault hne hfault]
            rfl
          rw [Disk.ensureDirectories, hmore, Disk.ensureChain, run_step, run_ensureDirectory, hmake]
          rcases pathFault_cases hfault with he | he <;> rw [he] <;> rfl

section

variable {before : List (List Char)} {name : List Char}
  (hsegments : Path.segments path = before ++ [name]) (hname : Path.isIdle name = false)

include hsegments hname

theorem exists_run_prepare : exists q, (Climbs q <-> ['.', '.'] ∈ Path.names before) /\
    forall t : FileTree, (disk.prepare path).run t =
      match pathFault? q with
      | some e => (.error (.createDirectory q e), t)
      | none =>
          match t.makeWay (t.start (Path.isAbsolute path)) (Path.names before) with
          | (.ok _, u) => (.ok (), u)
          | (.error e, u) => (.error (.createDirectory q e), u) := by
  obtain ⟨q, hparent, _, _, habsolute, hnames, htrimmed⟩ := Path.exists_parent hsegments hname
  refine ⟨q, ?_, fun t => ?_⟩
  · rw [← hnames, Climbs, Path.names, List.mem_filter]
    simp [show Path.isIdle ['.', '.'] = false from rfl]
  · have hrun := run_ensureDirectories htrimmed t
    rw [hnames, habsolute] at hrun
    rw [Disk.prepare, hparent]
    dsimp only
    by_cases hempty : q = []
    · subst hempty
      rw [← hnames]
      rfl
    · rw [if_neg (by simpa using hempty), run_step, hrun]
      cases pathFault? q with
      | some e => rfl
      | none =>
          generalize t.makeWay _ _ = made
          obtain ⟨answer, u⟩ := made
          cases answer <;> rfl

end

/-- What keeps a file from being written in its directory. -/
def writeFault? (t : FileTree) (path : Path) (place : Place) (name : List Char) :
    Option DiskFault :=
  match pathFault? path with
  | some e => some e
  | none =>
      match checkName name with
      | .error e => some e
      | .ok _ => if t.at? (place ++ [name]) = some .directory then some .isDirectory else none

section

variable {name : List Char}

theorem free_of_writeFault? (h : t.writeFault? path place name = none) :
    t.at? (place ++ [name]) ≠ some .directory := by
  intro hdirectory
  unfold writeFault? at h
  rw [if_pos hdirectory] at h
  cases hpath : pathFault? path with
  | some e =>
      rw [hpath] at h
      cases h
  | none =>
      rw [hpath] at h
      cases hcheck : checkName name with
      | error e =>
          rw [hcheck] at h
          cases h
      | ok _ =>
          rw [hcheck] at h
          cases h

/-- What keeps a file from being written keeps it from that later. -/
theorem Grows.writeFault? (hgrows : Grows t u) {e : DiskFault}
    (h : t.writeFault? path place name = some e) : u.writeFault? path place name = some e := by
  unfold FileTree.writeFault? at h ⊢
  cases hpath : pathFault? path with
  | some f =>
      rw [hpath] at h
      exact h
  | none =>
      rw [hpath] at h
      cases hcheck : checkName name with
      | error f =>
          rw [hcheck] at h
          exact h
      | ok _ =>
          rw [hcheck] at h
          dsimp only at h ⊢
          split at h
          · rename_i hdirectory
            rw [if_pos (hgrows.directory _ hdirectory)]
            exact h
          · cases h

/-- Nothing keeps a file that has been written from being written again. -/
theorem writeFault?_of_file {bytes : List UInt8} (h : t.writeFault? path place name = none)
    (hfile : u.at? (place ++ [name]) = some (.file bytes)) :
    u.writeFault? path place name = none := by
  have hfree : u.at? (place ++ [name]) ≠ some .directory := by
    rw [hfile]
    simp
  unfold FileTree.writeFault? at h ⊢
  rw [if_neg hfree]
  cases hpath : pathFault? path with
  | some e =>
      rw [hpath] at h
      cases h
  | none =>
      rw [hpath] at h
      cases hcheck : checkName name with
      | error e =>
          rw [hcheck] at h
          cases h
      | ok _ => rfl

end

/-- The directories around a path are made on the way through some names. -/
def PreparesBy (path q : Path) (before : List (List Char)) : Prop :=
  forall v : FileTree, (disk.prepare path).run v =
    match v.makeWay (v.start (Path.isAbsolute path)) (Path.names before) with
    | (.ok _, w) => (.ok (), w)
    | (.error e, w) => (.error (.createDirectory q e), w)

theorem repeats_of_blocked {rooted : Prop} (hrooted : rooted -> t.IsRooted) {q : Path}
    {before : List (List Char)}
    (hclimbs : Climbs q <-> ['.', '.'] ∈ Path.names before)
    (hprepare : PreparesBy path q before)
    {e : DiskFault}
    (hway : t.makeWay (t.start (Path.isAbsolute path)) (Path.names before) = (.error e, u))
    (content : List Char) :
    Repeats (AnswersAgain rooted) (disk.writeOutput path content) t [] := by
  have hkeeps := keeps_of_makeWay hway
  have hrun : forall (v w : FileTree) (f : DiskFault),
      v.makeWay (v.start (Path.isAbsolute path)) (Path.names before) = (.error f, w) ->
      (disk.writeOutput path content).run v = (.error (.createDirectory q f), w) := by
    intro v w f hway
    rw [Disk.writeOutput, run_step, hprepare, hway]
    rfl
  have hfirst := hrun t u e hway
  constructor
  · rw [hfirst]
    exact hkeeps.grows
  · intro place bytes _ hplace
    rw [hfirst]
    exact hkeeps.file place bytes (by simp) hplace
  · exact trivial
  · intro h
    have hstands := (h.makeWay (h.start (Path.isAbsolute path)) (Path.names before)).left
    rw [hway] at hstands
    rw [hfirst]
    exact hstands
  · intro v hgrows
    rw [hfirst] at hgrows
    have hstart := start_of_here (hkeeps.grows.trans hgrows).here (Path.isAbsolute path)
    rcases makeWay_again (Path.isIdle_of_mem_names before) hway hgrows with
      hagain | ⟨hexists, hagain, hmissing, hblocked⟩
    · rw [← hstart] at hagain
      rw [hfirst, hrun v v e hagain]
      exact ⟨.same _, rfl⟩
    · cases hexists
      rw [← hstart] at hagain
      rw [hfirst, hrun v v _ hagain]
      refine ⟨.blocked q fun hr => ?_, rfl⟩
      rw [hclimbs]
      by_contra hplain
      exact (hrooted hr).makeAll_ne_exists (Path.isIdle_of_mem_names before) hplain hmissing hblocked

section

variable {before : List (List Char)} {name : List Char}
  (hsegments : Path.segments path = before ++ [name]) (hname : Path.isIdle name = false)
  (hup : name ≠ ['.', '.'])

include hsegments hname hup

theorem writeFile_of_enterAll
    (henter : t.enterAll (t.start (Path.isAbsolute path)) (Path.names before) = .ok place)
    (bytes : List UInt8) :
    t.writeFile path bytes =
      match t.writeFault? path place name with
      | some e => .error e
      | none => .ok (t.put (place ++ [name]) (.file bytes)) := by
  unfold writeFault?
  cases hpath : pathFault? path with
  | some e =>
      rw [writeFile, follow_of_pathFault (Path.ne_nil_of_named hsegments hname) hpath]
      rfl
  | none =>
      have hfollow : t.follow path = .ok (.name place name false) := by
        rw [follow_of_named hsegments hname hpath, henter]
        exact congrArg Except.ok (if_neg hup)
      rw [writeFile_of_name hfollow]
      cases checkName name with
      | error e => rfl
      | ok _ =>
          dsimp only [Except.bind]
          cases t.at? (place ++ [name]) with
          | none => rfl
          | some node => cases node <;> rfl

theorem run_writeOutput {w : FileTree} (content : List Char)
    (hprepare : (disk.prepare path).run v = (.ok (), w))
    (henter : w.enterAll (w.start (Path.isAbsolute path)) (Path.names before) = .ok place) :
    (disk.writeOutput path content).run v =
      match w.writeFault? path place name with
      | some e => (.error (.writeFile path e), w)
      | none =>
          (.ok (.written path (Text.encode content).length),
            w.put (place ++ [name]) (.file (Text.encode content))) := by
  rw [Disk.writeOutput, run_step, hprepare]
  dsimp only
  rw [run_step, run_writeFile, writeFile_of_enterAll hsegments hname hup henter]
  cases w.writeFault? path place name with
  | some e => rfl
  | none => rfl

section

variable {q : Path} (hprepare : PreparesBy path q before)
  (hway : t.makeWay (t.start (Path.isAbsolute path)) (Path.names before) = (.ok place, u))
  (content : List Char)

include hprepare hway

theorem run_writeOutput_of_made :
    (disk.writeOutput path content).run t =
      match u.writeFault? path place name with
      | some e => (.error (.writeFile path e), u)
      | none =>
          (.ok (.written path (Text.encode content).length),
            u.put (place ++ [name]) (.file (Text.encode content))) := by
  refine run_writeOutput hsegments hname hup content ?_ ?_
  · rw [hprepare, hway]
  · rw [start_of_here (keeps_of_makeWay hway).here]
    exact enterAll_of_makeWay (Path.isIdle_of_mem_names before) hway

theorem run_writeOutput_again (hgrows : Grows u v) :
    (disk.writeOutput path content).run v =
      match v.writeFault? path place name with
      | some e => (.error (.writeFile path e), v)
      | none =>
          (.ok (.written path (Text.encode content).length),
            v.put (place ++ [name]) (.file (Text.encode content))) := by
  have henter := enterAll_of_makeWay (Path.isIdle_of_mem_names before) hway
  have hstart := start_of_here ((keeps_of_makeWay hway).grows.trans hgrows).here
    (Path.isAbsolute path)
  have hthere := hgrows.enterAll _ _ (by rw [henter]; simp)
  rw [henter, ← hstart] at hthere
  refine run_writeOutput hsegments hname hup content ?_ hthere
  rcases makeWay_again (Path.isIdle_of_mem_names before) hway hgrows with hagain | ⟨hexists, _⟩
  · rw [hprepare, hstart, hagain]
  · cases hexists

theorem repeats_of_made {rooted : Prop} :
    exists ws, Repeats (AnswersAgain rooted) (disk.writeOutput path content) t ws := by
  have hkeeps := keeps_of_makeWay hway
  have hfirst := run_writeOutput_of_made hsegments hname hup hprepare hway content
  have hstands : t.IsRooted -> u.IsRooted /\ u.at? place = some .directory := by
    intro h
    obtain ⟨hroot, hplace⟩ := h.makeWay (h.start (Path.isAbsolute path)) (Path.names before)
    rw [hway] at hroot hplace
    exact ⟨hroot, hplace place rfl⟩
  cases hfault : u.writeFault? path place name with
  | some e =>
      rw [hfault] at hfirst
      refine ⟨[], ?_⟩
      constructor
      · rw [hfirst]
        exact hkeeps.grows
      · intro other bytes _ hother
        rw [hfirst]
        exact hkeeps.file other bytes (by simp) hother
      · exact trivial
      · intro h
        rw [hfirst]
        exact (hstands h).left
      · intro v hgrows
        rw [hfirst] at hgrows
        rw [hfirst, run_writeOutput_again hsegments hname hup hprepare hway content hgrows,
          hgrows.writeFault? hfault]
        exact ⟨.same _, rfl⟩
  | none =>
      rw [hfault] at hfirst
      have hfree := free_of_writeFault? hfault
      have hput := grows_put_file hfree (Text.encode content)
      have hself := at?_put_self u (List.append_ne_nil_of_right_ne_nil place (List.cons_ne_nil name []))
        (.file (Text.encode content))
      refine ⟨[⟨place ++ [name], Text.encode content⟩], ?_⟩
      constructor
      · rw [hfirst]
        exact hkeeps.grows.trans hput
      · intro other bytes hother hbytes
        rw [hfirst]
        have hne : other ≠ place ++ [name] := by simpa using hother
        dsimp only
        rw [at?_put_ne u hne]
        exact hkeeps.file other bytes (by simp) hbytes
      · rw [hfirst]
        exact ⟨fun _ => hself, trivial⟩
      · intro h
        obtain ⟨hroot, hplace⟩ := hstands h
        rw [hfirst]
        exact hroot.put hplace hfree _
      · intro v hgrows
        rw [hfirst] at hgrows
        obtain ⟨bytes, hfile⟩ := hgrows.file _ _ hself
        rw [hfirst, run_writeOutput_again hsegments hname hup hprepare hway content
          (hput.trans hgrows), writeFault?_of_file hfault hfile]
        exact ⟨.same _, rfl⟩

end

/-- An output that has been written, or could not be, is the same when it is written
again. -/
theorem repeats_writeOutput {rooted : Prop} (hrooted : rooted -> t.IsRooted)
    (content : List Char) :
    exists ws, Repeats (AnswersAgain rooted) (disk.writeOutput path content) t ws := by
  obtain ⟨q, hclimbs, hprepare⟩ := exists_run_prepare hsegments hname
  cases hfault : pathFault? q with
  | some e =>
      refine ⟨[], Repeats.of_unchanged (.same (.error (.createDirectory q e))) fun v => ?_⟩
      rw [Disk.writeOutput, run_step, hprepare, hfault]
      rfl
  | none =>
      have hprepare : PreparesBy path q before := by
        intro v
        rw [hprepare, hfault]
      generalize hway : t.makeWay (t.start (Path.isAbsolute path)) (Path.names before) = way
      obtain ⟨answer, u⟩ := way
      cases answer with
      | error e =>
          exact ⟨[], repeats_of_blocked hrooted hclimbs hprepare hway content⟩
      | ok place => exact repeats_of_made hsegments hname hup hprepare hway content

end

end FileTree
end SchemaTypes
