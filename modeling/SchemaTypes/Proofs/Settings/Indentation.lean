import SchemaTypes.Disk.FileTree
import SchemaTypes.Proofs.Declaration.Content
import SchemaTypes.Proofs.Generation
import SchemaTypes.Proofs.Settings.Validity

/-!
# Indentations under accepted widths

A width that a configuration can ask for is any positive number of 64 bits.  Lines are
indented by one level at most, so that every indentation is a number of 64 bits as well,
but one level can be more than any text can hold: then the program panics, as soon as one
line is indented.
-/

namespace SchemaTypes

/-!
## Widths
-/

namespace Json

end Json

namespace Payload

variable {p : Payload} {o : Overrides} {s : Settings}

end Payload

/-!
## Lines of programs
-/

namespace TypeScript

theorem Program.isWithin_print (printWidth : Nat) (program : Program) :
    Line.IsWithin 1 (program.print printWidth) :=
  Line.IsWithin.layout (Nat.zero_le 1) (Statement.isWithin_print printWidth) program

def IsIndented (printWidth : Nat) (source : List Char) : Prop :=
  Text.allBlank (Text.normalizeLines source) = false /\
    exists program line, Program.parse? (Text.normalizeLines source) = some program /\
      line ∈ program.print printWidth /\ line.depth = 1

end TypeScript

open TypeScript

namespace FormatOptions

/-- Lines of a program cannot be indented where one level is too long and there is one. -/
theorem canIndent_print_eq_false (o : FormatOptions) (program : Program) :
    o.canIndent (program.print o.printWidth) = false <->
      longestText < o.tabWidth /\ exists line, line ∈ program.print o.printWidth /\ line.depth = 1 := by
  rw [canIndent, List.all_eq_false]
  constructor
  · rintro ⟨line, hline, hlong⟩
    have hdepth := program.isWithin_print o.printWidth line hline
    have hone : line.depth = 1 := by
      rcases Nat.le_one_iff_eq_zero_or_eq_one.mp hdepth with hzero | hone
      · rw [hzero] at hlong
        simp at hlong
      · exact hone
    rw [hone, Nat.mul_one, decide_eq_true_eq] at hlong
    exact ⟨Nat.lt_of_not_le hlong, line, hline, hone⟩
  · rintro ⟨hlong, line, hline, hone⟩
    refine ⟨line, hline, ?_⟩
    rw [hone, Nat.mul_one, decide_eq_true_eq]
    exact Nat.not_le_of_lt hlong

end FormatOptions

/-- The program panics in formatting just where one level is too long and some line is
indented. -/
theorem format_eq_panic [Recovery] {o : FormatOptions} {source : List Char} :
    format o source = .error .panic <->
      FormatOptions.longestText < o.tabWidth /\ IsIndented o.printWidth source := by
  unfold IsIndented
  cases hblank : Text.allBlank (Text.normalizeLines source) with
  | true => simp [format_of_blank hblank]
  | false =>
      cases hparse : Program.parse? (Text.normalizeLines source) with
      | none => simp [format_of_not_program hblank hparse]
      | some program =>
          rw [format_of_parse hblank hparse]
          have hindent := FormatOptions.canIndent_print_eq_false o program
          cases hcan : o.canIndent (program.print o.printWidth) with
          | true =>
              rw [hcan] at hindent
              refine iff_of_false (by simp) ?_
              rintro ⟨hlong, _, other, line, hother, hline, hone⟩
              cases hother
              cases hindent.mpr ⟨hlong, line, hline, hone⟩
          | false =>
              obtain ⟨hlong, line, hline, hone⟩ := hindent.mp hcan
              exact iff_of_true rfl ⟨hlong, rfl, program, line, rfl, hline, hone⟩

/-!
## Generations
-/

namespace Settings

/-- The program panics in generating just where it does in formatting the declarations of a
datamodel without a clash. -/
theorem generate_eq_panic [Recovery] (s : Settings) (d : Datamodel) :
    s.generate d = .error .panic <->
      d.clash? = none /\ FormatOptions.longestText < s.format.tabWidth /\
        IsIndented s.format.printWidth d.declaration := by
  rw [← format_eq_panic, generate]
  cases d.clash? with
  | some clash => simp
  | none =>
      dsimp only
      cases SchemaTypes.format s.format d.declaration with
      | ok content => simp
      | error halt => cases halt <;> simp [Halt.map]

end Settings

namespace Payload

section

variable {n : Nat} (hpositive : 1 ≤ n) (hbound : n < 2 ^ 64)

include hbound

include hpositive

end

end Payload
end SchemaTypes
