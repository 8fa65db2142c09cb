import SchemaTypes.Cli.Run

/-!
# Reading command lines

An argument is read for itself: it asks for help, ends the options or names one of them
with the value that belongs to it.  The option that asks for a preview changes nothing
else that is read.
-/

namespace SchemaTypes
namespace Reading

/-!
## One argument
-/

/-- An argument names an option, perhaps with a value attached to it. -/
inductive Names (spec : OptionSpec) : Option (List Char) -> List Char -> Prop where
  | long {attached : Option (List Char)} {s : List Char}
      (h : splitLong s = (spec.long.toList, attached)) : Names spec attached ('-' :: '-' :: s)
  | short {c : Char} {more : List Char} (h : spec.short = some c) (hdash : c ≠ '-') :
      Names spec (shortValue more) ('-' :: c :: more)

def taken? (spec : OptionSpec) (attached : Option (List Char)) (values : Given)
    (rest : List (List Char)) : Option (Given × List (List Char)) := do
  let (value, rest) ← option? spec attached rest
  let values ← values.add? spec.long value
  some (values, rest)

variable {specs : List OptionSpec} {steps : Nat} {values : Given} {arg : List Char}
  {rest : List (List Char)}

/-- What can come of an argument, whatever has been read before it. -/
inductive Reads (specs : List OptionSpec) (steps : Nat) (arg : List Char)
    (rest : List (List Char)) : Prop where
  | help (h : forall values, readFrom specs (steps + 1) values (arg :: rest) = .help)
  | misuse (h : forall values, readFrom specs (steps + 1) values (arg :: rest) = .misuse)
  | done (harg : arg = ['-', '-']) (hrest : rest = [])
      (h : forall values, readFrom specs (steps + 1) values (arg :: rest) = .given values)
  | option (spec : OptionSpec) (attached : Option (List Char)) (hspec : spec ∈ specs)
      (hnames : Names spec attached arg)
      (h : forall values, readFrom specs (steps + 1) values (arg :: rest) =
        (taken? spec attached values rest).elim .misuse fun next =>
          readFrom specs steps next.1 next.2)

theorem reads_named (found? : Option OptionSpec) (attached : Option (List Char))
    (hfound : forall spec, found? = some spec -> spec ∈ specs /\ Names spec attached arg)
    (h : forall values, readFrom specs (steps + 1) values (arg :: rest) =
      (found?.bind fun spec => taken? spec attached values rest).elim .misuse fun next =>
        readFrom specs steps next.1 next.2) :
    Reads specs steps arg rest := by
  cases found? with
  | none => exact .misuse h
  | some spec =>
      obtain ⟨hspec, hnames⟩ := hfound spec rfl
      exact .option spec attached hspec hnames h

theorem readFrom_taken? (found? : Option OptionSpec) (attached : Option (List Char))
    (values : Given) :
    (match (do
        let spec ← found?
        let (value, rest) ← option? spec attached rest
        let values ← values.add? spec.long value
        some (values, rest) : Option (Given × List (List Char))) with
      | some (values, rest) => readFrom specs steps values rest
      | none => .misuse) =
    (found?.bind fun spec => taken? spec attached values rest).elim .misuse fun next =>
      readFrom specs steps next.1 next.2 := by
  have htaken : found?.bind (fun spec => taken? spec attached values rest) =
      (found? >>= fun spec => taken? spec attached values rest) := rfl
  rw [htaken]
  unfold taken?
  split <;> rename_i heq <;> rw [heq] <;> rfl

theorem reads (specs : List OptionSpec) (steps : Nat) (arg : List Char)
    (rest : List (List Char)) : Reads specs steps arg rest := by
  cases arg with
  | nil => exact .misuse fun values => rfl
  | cons first tail =>
    by_cases hfirst : first = '-'
    case neg =>
      refine .misuse fun values => readFrom.eq_7 _ _ _ _ _ ?_ ?_ ?_ ?_
      all_goals
        intros
        simp_all
    subst hfirst
    cases tail with
    | nil => exact .misuse fun values => rfl
    | cons c more =>
      by_cases hdash : c = '-'
      · subst hdash
        cases more with
        | nil =>
            cases rest with
            | nil => exact .done rfl rfl fun values => rfl
            | cons first more => exact .misuse fun values => rfl
        | cons d more =>
            cases hsplit : splitLong (d :: more) with
            | mk name attached =>
                by_cases hhelp : name = "help".toList
                · cases attached with
                  | none =>
                      refine .help fun values => ?_
                      rw [readFrom.eq_4 _ _ _ _ _ (List.cons_ne_nil _ _), hsplit, hhelp]
                      rfl
                  | some value =>
                      refine .misuse fun values => ?_
                      rw [readFrom.eq_4 _ _ _ _ _ (List.cons_ne_nil _ _), hsplit, hhelp]
                      rfl
                · refine reads_named (specs.find? fun spec => spec.long.toList == name) attached
                    (fun spec hspec => ?_) fun values => ?_
                  · have hname := List.find?_some hspec
                    rw [beq_iff_eq] at hname
                    exact ⟨List.mem_of_find?_eq_some hspec, .long (by rw [hsplit, hname])⟩
                  · rw [readFrom.eq_4 _ _ _ _ _ (List.cons_ne_nil _ _), hsplit]
                    simp only [if_neg hhelp]
                    exact readFrom_taken? _ attached values
      · by_cases hhelp : c = 'h'
        · subst hhelp
          exact .help fun values => readFrom.eq_5 _ _ _ _ _
        · refine reads_named (specs.find? fun spec => spec.short == some c) (shortValue more)
            (fun spec hspec => ?_) fun values => ?_
          · have hshort := List.find?_some hspec
            rw [beq_iff_eq] at hshort
            exact ⟨List.mem_of_find?_eq_some hspec, .short hshort hdash⟩
          · rw [readFrom.eq_6 _ _ _ _ _ _ (fun h _ => hdash h) hdash hhelp]
            exact readFrom_taken? _ _ values

/-!
## Arguments behind an option
-/

end Reading

namespace Invocation

open Reading

theorem parse_generate (rest : List (List Char)) :
    parse ("generate".toList :: rest) =
      (read Command.generateOptions rest).invocation Command.generateOf :=
  rfl

def inputArgument (input : Path) : List Char :=
  "--dmmf=".toList ++ input

/-- A command line with an input alone overrides nothing. -/
theorem parse_inputArgument {input : Path} (h : input ≠ []) :
    parse ["generate".toList, inputArgument input] = .command (.generate input {} false) := by
  have hsplit : splitLong ("dmmf=".toList ++ input) = ("dmmf".toList, some input) := by
    unfold splitLong
    have htake : ("dmmf=".toList ++ input).takeWhile (· != '=') = "dmmf".toList := by
      simp
    rw [htake]
    rfl
  have hread : Reading.read Command.generateOptions [inputArgument input] =
      .given [("dmmf", input)] := by
    have hform : [inputArgument input] = [('-' :: '-' :: ("dmmf=".toList ++ input))] := rfl
    rw [hform, Reading.read, List.length_singleton,
      readFrom.eq_4 _ _ _ _ _ (by simp), hsplit]
    cases input with
    | nil => exact absurd rfl h
    | cons c more => rfl
  rw [parse_generate, hread]
  rfl

end Invocation
end SchemaTypes
