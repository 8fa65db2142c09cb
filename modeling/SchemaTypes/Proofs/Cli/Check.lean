import SchemaTypes.Cli.Run
import SchemaTypes.Proofs.Disk.FileTree
import SchemaTypes.Proofs.Generation
import SchemaTypes.Proofs.Settings
import SchemaTypes.Proofs.Text.Utf8

/-!
# Checking what has been generated

A check takes the settings of a payload for the directory in which the checked file
lies.  They have the format with which the file was generated, so that a file is up to
date once it has been generated.  The name of the file is taken from the payload again,
and a payload whose name is overridden on every generation may have none to take.
-/

namespace SchemaTypes

/-!
## Settings of a check
-/

namespace Payload

variable {p : Payload} {o : Overrides} {s : Settings}

/-- Every name of a file that is given is the name of a file. -/
def HasPlainNames (p : Payload) : Prop :=
  forall name, ("fileName".toList, Json.string name) ∈ p.generator.config ->
    Path.isPlainName name = true

theorem settings_of_directory (h : p.settings o = .ok s) (hwidth : o.printWidth = none)
    (hname : o.fileName = none \/ p.HasPlainNames) {directory : Path}
    (hdirectory : directory ≠ []) :
    exists s', p.settings { output := some directory } = .ok s' /\ s'.format = s.format := by
  obtain ⟨given, taken, _, htaken, hplain, hs⟩ := settings_eq_ok.mp h
  have hformat : s.format = taken.format := by
    rw [hs, Settings.override, hwidth]
    rfl
  have hplain' : Path.isPlainName taken.fileName = true := by
    cases hname with
    | inl hnone =>
        rw [Settings.override, hnone] at hplain
        exact hplain
    | inr hall =>
        cases Settings.fileName_takeKeys htaken with
        | inl hdefault =>
            rw [hdefault]
            exact (by decide : Path.isPlainName "index.ts".toList = true)
        | inr hmem => exact hall _ hmem
  have hagain := Settings.takeKeys_withDirectory { directory := given } directory p.generator.config
  rw [htaken] at hagain
  refine ⟨_, settings_eq_ok.mpr ⟨directory, _, ?_, hagain, hplain', rfl⟩, hformat.symm⟩
  simp [directory?, hdirectory]

end Payload

/-!
## Runs of commands
-/

namespace FileTree

variable {t u : FileTree} {path input : Path}

def text (t : FileTree) (path : Path) : Except DiskFault (List Char) :=
  match t.readFile path with
  | .error fault => .error fault
  | .ok bytes =>
      match Text.decode bytes with
      | .ok s => .ok s
      | .error _ => .error .notText

theorem run_readText (t : FileTree) (path : Path) :
    (disk.readText path).run t = (t.text path, t) := by
  unfold Disk.readText text
  rw [run_step]
  change StateT.run (match t.readFile path with | .error fault => _ | .ok bytes => _) t = _
  cases t.readFile path with
  | error fault => rfl
  | ok bytes =>
      dsimp only
      cases Text.decode bytes <;> rfl

def payload (t : FileTree) (input : Path) : Except CommandError Payload :=
  match t.text input with
  | .error fault => .error (.disk fault)
  | .ok s =>
      match Payload.read s with
      | .error e => .error (.input input e)
      | .ok p => .ok p

theorem run_load (t : FileTree) (input : Path) :
    (Command.load disk input).run t = (t.payload input, t) := by
  unfold Command.load payload
  rw [run_step, run_readText]
  cases t.text input with
  | error fault => rfl
  | ok s =>
      dsimp only
      cases Payload.read s <;> rfl

theorem text_of_readFile {s : List Char} (h : t.readFile path = .ok (Text.encode s)) :
    t.text path = .ok s := by
  rw [text, h]
  dsimp only
  rw [Text.decode_encode]

theorem Keeps.payload {changed : Option Place} {p : Payload} (h : Keeps changed t u)
    (hload : t.payload input = .ok p)
    (hchanged : forall place, t.place? input = some place -> changed ≠ some place) :
    u.payload input = .ok p := by
  cases hread : t.readFile input with
  | error fault =>
      rw [FileTree.payload, text, hread] at hload
      cases hload
  | ok bytes =>
      rw [FileTree.payload, text, hread] at hload
      rw [FileTree.payload, text, h.readFile hread hchanged]
      exact hload

end FileTree

namespace Run

theorem code_fail (printed : List Char) (events : List Event) (e : CommandError) :
    (fail printed events e).code ≠ 0 := by
  unfold fail CommandError.exitCode
  cases e <;> simp

theorem code_halt (printed : List Char) (events : List Event) (h : Halt GenerateError) :
    (halt printed events h).code ≠ 0 := by
  cases h with
  | failure e => exact code_fail printed events (.generate e)
  | panic => exact Nat.succ_ne_zero 100

end Run

namespace Command

variable {t : FileTree} {path input : Path} {o : Overrides} {p : Payload}

/-- What a run that has generated a file has printed. -/
def written (p : Payload) (path : Path) (content : List Char) : List Char :=
  loading ++ foundText p.datamodel ++ generating ++
    resultText (.written path (Text.encode content).length)

/-- A generation that exits without a failure has written what it generates. -/
theorem of_runGenerate [TypeScript.Recovery]
    (h : ((runGenerate FileTree.disk input o false).run t).1.code = 0) :
    exists p s g before, t.payload input = .ok p /\ p.settings o = .ok s /\
      s.generate p.datamodel = .ok g /\
      ((runGenerate FileTree.disk input o false).run t).1.printed =
        written p s.outputPath g.content /\
      FileTree.Keeps none t before /\
      before.writeFile s.outputPath (Text.encode g.content) =
        .ok ((runGenerate FileTree.disk input o false).run t).2 := by
  unfold runGenerate at h ⊢
  simp only [run_step, FileTree.run_load] at h ⊢
  cases hload : t.payload input with
  | error e =>
      rw [hload] at h
      exact absurd h (Run.code_fail _ _ _)
  | ok p =>
      rw [hload] at h
      dsimp only at h ⊢
      cases hsettings : p.settings o with
      | error e =>
          rw [hsettings] at h
          exact absurd h (Run.code_fail _ _ _)
      | ok s =>
          rw [hsettings] at h
          dsimp only at h ⊢
          simp only [run_step, Settings.run_write] at h ⊢
          cases hgenerate : s.generate p.datamodel with
          | error halt =>
              rw [hgenerate] at h
              exact absurd h (Run.code_halt _ _ _)
          | ok g =>
              rw [hgenerate] at h
              dsimp only at h ⊢
              cases hwrite : (FileTree.disk.writeOutput g.path g.content).run t with
              | mk answer u =>
                  rw [hwrite] at h
                  cases answer with
                  | error e => exact absurd h (Run.code_fail _ _ _)
                  | ok w =>
                      obtain ⟨hw, before, hbefore, hwritten⟩ := FileTree.of_writeOutput hwrite
                      rw [Settings.path_generate hgenerate] at hw hwritten
                      refine ⟨p, s, g, before, rfl, hsettings, hgenerate, ?_, hbefore, hwritten⟩
                      rw [hw]
                      rfl

theorem directoryOf_ne_nil (path : Path) : directoryOf path ≠ [] := by
  unfold directoryOf
  split <;> simp

def upToDate : List Char := checking ++ "✓ Types are up-to-date\n".toList

theorem runCheck_of_upToDate [TypeScript.Recovery] {existing : List Char} {s : Settings} {g : Generated}
    (hread : t.readFile path = .ok (Text.encode existing)) (hload : t.payload input = .ok p)
    (hsettings : p.settings { output := some (directoryOf path) } = .ok s)
    (hgenerate : s.generate p.datamodel = .ok g) (hcontent : existing = g.content) :
    ((runCheck FileTree.disk path input).run t).1.code = 0 /\
      ((runCheck FileTree.disk path input).run t).1.printed = upToDate := by
  have hexists : (FileTree.disk.pathExists path).run t = (true, t) := by
    change (t.pathExists path, t) = _
    rw [FileTree.pathExists_of_readFile hread]
  have hrun : (runCheck FileTree.disk path input).run t =
      (checkAgainst path existing p, t) := by
    unfold runCheck
    simp only [run_step, hexists, if_true, FileTree.run_readText, FileTree.text_of_readFile hread,
      FileTree.run_load, hload]
    rfl
  have hcheck : checkAgainst path existing p =
      .ok upToDate (p.events { output := some (directoryOf path) } ++ p.datamodel.events) := by
    unfold checkAgainst
    simp only [hsettings, hgenerate, isUpToDate, hcontent, beq_self_eq_true, if_true]
    rfl
  rw [hrun, hcheck]
  exact ⟨rfl, rfl⟩

/-- A file that has been generated is up to date, unless the payload has no name of its
own for it or was in that file. -/
theorem runCheck_of_generated [TypeScript.Recovery] (input : Path) (o : Overrides) (t : FileTree)
    (hwidth : o.printWidth = none)
    (hname : forall p, t.payload input = .ok p -> o.fileName = none \/ p.HasPlainNames)
    (hgenerated : ((runGenerate FileTree.disk input o false).run t).1.code = 0) :
    let generated := (runGenerate FileTree.disk input o false).run t
    exists p s g, t.payload input = .ok p /\ p.settings o = .ok s /\
      s.generate p.datamodel = .ok g /\
      generated.1.printed = written p s.outputPath g.content /\
      (generated.2.place? input ≠ generated.2.place? s.outputPath ->
        let checked := (runCheck FileTree.disk s.outputPath input).run generated.2
        checked.1.code = 0 /\ checked.1.printed = upToDate) := by
  intro generated
  obtain ⟨p, s, g, before, hload, hsettings, hgenerate, hprinted, hbefore, hwrite⟩ :=
    of_runGenerate hgenerated
  refine ⟨p, s, g, hload, hsettings, hgenerate, hprinted, fun hplaces => ?_⟩
  obtain ⟨place, hplace, hafter, hread⟩ := FileTree.of_writeFile hwrite
  have hbefore' := hbefore.payload hload (by simp)
  have hpayload : generated.2.payload input = .ok p := by
    refine hafter.payload hbefore' fun other hother heq => ?_
    cases heq
    exact hplaces ((hafter.place? hother).trans (hafter.place? hplace).symm)
  obtain ⟨s', hsettings', hformat⟩ := Payload.settings_of_directory hsettings hwidth (hname p hload)
    (directoryOf_ne_nil s.outputPath)
  exact runCheck_of_upToDate hread hpayload hsettings' (Settings.generate_of_format hgenerate hformat)
    rfl

/-- A tree with a payload for a directory, which names a file of its own. -/
def treeOf (fileName : String) : FileTree :=
  { entries :=
      [(["d.json".toList], .file (Text.encode
        (["\x7b\"generator\":\x7b\"output\":\x7b\"value\":\"o\"\x7d,",
          "\"config\":\x7b\"fileName\":\"", fileName, "\"\x7d\x7d,",
          "\"dmmf\":\x7b\"datamodel\":\x7b\"models\":[],\"enums\":[]\x7d\x7d\x7d"].flatMap
            String.toList)))] }

def sampleRun (fileName : String) (o : Overrides) : Run × FileTree :=
  (runGenerate FileTree.disk "d.json".toList o false).run (treeOf fileName)

theorem runCheck_of_generated_sample :
    (sampleRun "b.ts" {}).1.code = 0 /\
      ((runCheck FileTree.disk "o/b.ts".toList "d.json".toList).run
        (sampleRun "b.ts" {}).2).1.code = 0 := by
  have hgenerated : (sampleRun "b.ts" {}).1.code = 0 := by decide +kernel
  have hgiven : (((treeOf "b.ts").payload "d.json".toList).toOption.bind fun p =>
      (p.settings {}).toOption) = some { directory := "o".toList, fileName := "b.ts".toList } := by
    decide +kernel
  have hplaces : (sampleRun "b.ts" {}).2.place? "d.json".toList ≠
      (sampleRun "b.ts" {}).2.place? "o/b.ts".toList := by
    decide +kernel
  unfold sampleRun at hgenerated hplaces ⊢
  obtain ⟨p, s, g, hload, hsettings, _, _, hcheck⟩ :=
    runCheck_of_generated "d.json".toList {} (treeOf "b.ts") rfl (fun _ _ => .inl rfl) hgenerated
  have hs : (p.settings {}).toOption =
      some { directory := "o".toList, fileName := "b.ts".toList } := by
    rw [hload] at hgiven
    exact hgiven
  have hpath : s.outputPath = "o/b.ts".toList := by
    rw [hsettings] at hs
    rw [Option.some.inj hs]
    decide
  rw [hpath] at hcheck
  exact ⟨hgenerated, (hcheck hplaces).left⟩

/-- A name in another directory stands in the payload, so that the file that has been
generated under the name given cannot be checked. -/
theorem runCheck_fails_of_override :
    (sampleRun "a/b.ts" { fileName := some "f.ts".toList }).1.code = 0 /\
      ((sampleRun "a/b.ts" { fileName := some "f.ts".toList }).2.readFile
        "o/f.ts".toList).toOption = some [] /\
      (sampleRun "a/b.ts" { fileName := some "f.ts".toList }).2.place? "d.json".toList ≠
        (sampleRun "a/b.ts" { fileName := some "f.ts".toList }).2.place? "o/f.ts".toList /\
      ((runCheck FileTree.disk "o/f.ts".toList "d.json".toList).run
        (sampleRun "a/b.ts" { fileName := some "f.ts".toList }).2).1.code = 1 := by
  decide +kernel

end Command

end SchemaTypes
