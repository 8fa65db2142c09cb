import SchemaTypes.Proofs.Format.Stability
import SchemaTypes.Proofs.Steps
import SchemaTypes.Proofs.TypeScript.Requoting

/-!
# Formatted sources

A source that is formatted is read as a program, and its formatted text consists of the
lines of that program.  If the program is canonical up to the quotes of its literals,
the text is read as the same program and formatted to itself.  Other programs may lose a
part when they are printed.
-/

namespace SchemaTypes

open TypeScript

variable {o : FormatOptions} {source t : List Char}

/-- The program on a text is canonical up to the quotes of its literals. -/
def IsCanonicalSource (printWidth : Nat) (source : List Char) : Prop :=
  forall program, Program.parse? (Text.normalizeLines source) = some program ->
    program.requoted.Canonical printWidth

theorem of_format [Recovery] (h : format o source = .ok t) :
    (Text.allBlank (Text.normalizeLines source) = true /\ t = []) \/
      exists program, Program.parse? (Text.normalizeLines source) = some program /\
        o.canIndent (program.print o.printWidth) = true /\
        t = o.finish source (program.print o.printWidth) := by
  cases hblank : Text.allBlank (Text.normalizeLines source) with
  | true =>
      rw [format_of_blank hblank] at h
      cases h
      exact .inl ⟨rfl, rfl⟩
  | false =>
      cases hparse : Program.parse? (Text.normalizeLines source) with
      | none =>
          rw [format_of_not_program hblank hparse] at h
          cases h
      | some program =>
          rw [format_of_parse hblank hparse] at h
          split at h
          · rename_i hindent
            cases h
            exact .inr ⟨program, rfl, hindent, rfl⟩
          · cases h

theorem finish_nil (o : FormatOptions) (source : List Char) : o.finish source [] = [] := by
  rw [FormatOptions.finish]
  split <;> rfl

theorem format_nil [Recovery] (o : FormatOptions) : format o [] = .ok [] :=
  format_of_blank rfl

/-- Formatted text stays as it is. -/
theorem format_formatted [Recovery] (h : format o source = .ok t)
    (hcanonical : IsCanonicalSource o.printWidth source) : format o t = .ok t := by
  obtain ⟨_, ht⟩ | ⟨program, hparse, hindent, ht⟩ := of_format h
  · rw [ht, format_nil]
  · by_cases hne : program = []
    · have hnil : t = [] := by
        rw [ht, hne]
        exact finish_nil o source
      rw [hnil, format_nil]
    · rw [← Program.print_requoted] at hindent ht
      rw [ht]
      exact format_finish (hcanonical program hparse) (mt Program.requoted_eq_nil.mp hne) hindent
        source

/-- A source with quotes of both kinds, a comment and a union. -/
def sampleSource : List Char :=
  "type A='x' | \"y\"; // b\nlet c = \x7b d:'e' \x7d;".toList

def sampleText : List Char :=
  "type A = \"x\" | \"y\"; // b\nlet c = \x7b d: \"e\" \x7d;\n".toList

theorem isCanonicalSource_sample : IsCanonicalSource 100 sampleSource := by
  have hall : (Program.parse? (Text.normalizeLines sampleSource)).all
      (fun program => program.requoted.isCanonical 100) = true := by
    decide +kernel
  intro program hparse
  rw [hparse] at hall
  exact Program.canonical_of_isCanonical hall

theorem format_sample : format {} sampleSource = .ok sampleText :=
  toOption_eq_some.mp (by decide +kernel)

theorem format_formatted_sample : format {} sampleText = .ok sampleText :=
  format_formatted format_sample isCanonicalSource_sample

/-- Members on lines of their own are joined without anything between them, so that the
formatted text is no program any more. -/
theorem format_fails_on_joined_members :
    (format {} "type T = \x7b\n  a: string\n  b: number\n\x7d;".toList).toOption =
        some "type T = \x7b a: string b: number \x7d;\n".toList /\
      (format {} "type T = \x7b a: string b: number \x7d;\n".toList).toOption = none := by
  decide +kernel

/-- Formatted text is read as the program that was formatted, with its literals between
double quotes, where they stand for what they stood for (`Quoted.meaning_of_requote`). -/
theorem reads_formatted [Recovery] (h : format o source = .ok t)
    (hcanonical : IsCanonicalSource o.printWidth source) :
    (Text.allBlank (Text.normalizeLines source) = true /\ t = []) \/
      exists program read, Program.parse? (Text.normalizeLines source) = some program /\
        Program.parse? (Text.normalizeLines t) = some read /\
        read.shape = program.requoted.shape := by
  obtain hblank | ⟨program, hparse, hindent, ht⟩ := of_format h
  · exact .inl hblank
  · refine .inr ⟨program, ?_⟩
    by_cases hne : program = []
    · have hnil : t = [] := by
        rw [ht, hne]
        exact finish_nil o source
      rw [hnil, hne]
      exact ⟨[], hparse.trans (congrArg some hne), rfl, rfl⟩
    · have hcanon := hcanonical program hparse
      have hne' := mt Program.requoted_eq_nil.mp hne
      rw [← Program.print_requoted] at ht
      rw [ht]
      exact ⟨_, hparse, parse?_finish hcanon hne' source, Program.shape_located hcanon o.tabWidth⟩

theorem reads_formatted_sample :
    exists program read, Program.parse? (Text.normalizeLines sampleSource) = some program /\
      Program.parse? (Text.normalizeLines sampleText) = some read /\
      read.shape = program.requoted.shape := by
  obtain ⟨hblank, _⟩ | hread := reads_formatted format_sample isCanonicalSource_sample
  · exact absurd hblank (by decide)
  · exact hread

/-- An exclamation mark stands behind a declared name. -/
def hasDefinite (program : Program) : Bool :=
  program.any fun
    | .node _ _ (.lexical _ _ declarators) => declarators.any Declarator.definite
    | _ => false

/-- The mark is not printed. -/
theorem format_drops_definite :
    (format {} "let a!: number;".toList).toOption = some "let a: number;\n".toList /\
      (Program.parse? "let a!: number;".toList).any hasDefinite = true /\
      (Program.parse? "let a: number;\n".toList).any hasDefinite = false := by
  decide +kernel

end SchemaTypes
