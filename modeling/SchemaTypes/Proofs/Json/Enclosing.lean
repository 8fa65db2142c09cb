import SchemaTypes.Json.Parser
import SchemaTypes.Proofs.Json.Lexeme

/-!
# Texts inside objects

A text stays a text of the same value where it is the value of a member: its reader goes on
in the same way, and stops in front of the brace that closes the object.  It may take more
steps there and go deeper, and the object is one level deeper than the value.
-/

namespace SchemaTypes
namespace Reader

variable {α : Type}

/-- What the first reader reads, the second one reads in front of a brace, and no more. -/
def Extends (more : List Char) (read wider : Reader α) : Prop :=
  forall s a rest, read s = .ok (a, rest) ->
    wider (s ++ '\x7d' :: more) = .ok (a, rest ++ '\x7d' :: more)

/-!
## Arrays and objects
-/

def Next.append (tail : List Char) : Next -> Next
  | more rest => more (rest ++ tail)
  | close rest => close (rest ++ tail)

/-- What is next in an array: its end, its first item or an item behind a comma. -/
inductive NextItem (s : List Char) : Bool -> Next -> Prop
  | close {first : Bool} {rest : List Char} (hs : skipBlanks s = ']' :: rest) :
      NextItem s first (.close rest)
  | first {c : Char} {rest : List Char} (hs : skipBlanks s = c :: rest) (hc : c ≠ ']') :
      NextItem s true (.more (c :: rest))
  | further {c : Char} {rest left : List Char} (hs : skipBlanks s = ',' :: rest)
      (hrest : skipBlanks rest = c :: left) (hc : c ≠ ']') : NextItem s false (.more (c :: left))

theorem nextItem_eq_ok {first : Bool} {s : List Char} {next : Next} :
    nextItem first s = .ok next <-> NextItem s first next := by
  constructor
  · intro h
    unfold nextItem at h
    split at h
    · cases h
    · rename_i hs
      cases h
      exact .close hs
    · rename_i c rest hc hs
      cases first with
      | true =>
          cases h
          exact .first hs hc
      | false =>
          simp only [Bool.false_eq_true, if_false] at h
          split at h
          · rename_i hcomma
            subst hcomma
            split at h
            · cases h
            · cases h
            · rename_i hend hclose
              cases h
              cases hrest : skipBlanks rest with
              | nil => exact absurd hrest hend
              | cons d left =>
                  refine .further hs hrest ?_
                  rintro rfl
                  exact hclose _ hrest
          · cases h
  · intro h
    cases h with
    | close hs =>
        rw [nextItem, hs]
        rfl
    | first hs hc =>
        rw [nextItem, hs]
        simp
    | further hs hrest hc =>
        rw [nextItem, hs]
        simp [hrest, hc]

theorem nextItem_append {first : Bool} {s : List Char} {next : Next}
    (h : nextItem first s = .ok next) (tail : List Char) :
    nextItem first (s ++ tail) = .ok (next.append tail) := by
  rw [nextItem_eq_ok] at h ⊢
  cases h with
  | close hs => exact .close (skipBlanks_append hs tail)
  | first hs hc => exact .first (skipBlanks_append hs tail) hc
  | further hs hrest hc =>
      exact .further (skipBlanks_append hs tail) (skipBlanks_append hrest tail) hc

/-- What is next in an object: its end, its first key or a key behind a comma. -/
inductive NextKey (s : List Char) : Bool -> Next -> Prop
  | close {first : Bool} {rest : List Char} (hs : skipBlanks s = '\x7d' :: rest) :
      NextKey s first (.close rest)
  | first {rest : List Char} (hs : skipBlanks s = '"' :: rest) : NextKey s true (.more rest)
  | further {rest left : List Char} (hs : skipBlanks s = ',' :: rest)
      (hrest : skipBlanks rest = '"' :: left) : NextKey s false (.more left)

theorem nextKey_eq_ok {first : Bool} {s : List Char} {next : Next} :
    nextKey first s = .ok next <-> NextKey s first next := by
  constructor
  · intro h
    unfold nextKey at h
    split at h
    · cases h
    · rename_i hs
      cases h
      exact .close hs
    · rename_i c rest _ hs
      cases first with
      | true =>
          simp only [if_true] at h
          split at h
          · rename_i hquote
            cases h
            rw [hquote] at hs
            exact .first hs
          · cases h
      | false =>
          simp only [Bool.false_eq_true, if_false] at h
          split at h
          · rename_i hcomma
            subst hcomma
            split at h
            · cases h
            · rename_i hrest
              cases h
              exact .further hs hrest
            · cases h
            · cases h
          · cases h
  · intro h
    cases h with
    | close hs =>
        rw [nextKey, hs]
        rfl
    | first hs =>
        rw [nextKey, hs]
        rfl
    | further hs hrest =>
        rw [nextKey, hs]
        simp [hrest]

theorem nextKey_append {first : Bool} {s : List Char} {next : Next}
    (h : nextKey first s = .ok next) (tail : List Char) :
    nextKey first (s ++ tail) = .ok (next.append tail) := by
  rw [nextKey_eq_ok] at h ⊢
  cases h with
  | close hs => exact .close (skipBlanks_append hs tail)
  | first hs => exact .first (skipBlanks_append hs tail)
  | further hs hrest => exact .further (skipBlanks_append hs tail) (skipBlanks_append hrest tail)

theorem colon_eq_ok {s rest : List Char} : colon s = .ok rest <-> skipBlanks s = ':' :: rest := by
  constructor
  · intro h
    unfold colon at h
    split at h
    · cases h
    · cases h
      assumption
    · cases h
  · intro h
    rw [colon, h]
    rfl

theorem items_brace {item wider : Reader α} {more : List Char} (hitem : Extends more item wider)
    {steps stepsWider : Nat} (hsteps : steps ≤ stepsWider) (first : Bool) :
    Extends more (items item steps first) (items wider stepsWider first) := by
  induction steps generalizing stepsWider first with
  | zero =>
      intro s xs rest h
      cases h
  | succ steps ih =>
      intro s xs rest h
      obtain ⟨stepsWider, rfl⟩ : exists n, stepsWider = n + 1 := ⟨stepsWider - 1, by omega⟩
      rw [items] at h ⊢
      obtain ⟨next, hnext, h⟩ := bind_eq_ok.mp h
      refine bind_eq_ok.mpr ⟨_, nextItem_append hnext _, ?_⟩
      cases next with
      | close left =>
          cases h
          rfl
      | more left =>
          obtain ⟨⟨x, left⟩, hx, h⟩ := bind_eq_ok.mp h
          obtain ⟨⟨further, left⟩, hfurther, h⟩ := bind_eq_ok.mp h
          cases h
          have hrest := ih (Nat.le_of_succ_le_succ hsteps) false _ _ _ hfurther
          exact bind_eq_ok.mpr ⟨_, hitem _ _ _ hx, bind_eq_ok.mpr ⟨_, hrest, rfl⟩⟩

theorem members_brace {step wider : α -> List Char -> Reader α} {more : List Char}
    (hstep : forall state key, Extends more (step state key) (wider state key))
    {steps stepsWider : Nat} (hsteps : steps ≤ stepsWider) (first : Bool) (state : α) :
    Extends more (members step steps first state) (members wider stepsWider first state) := by
  induction steps generalizing stepsWider first state with
  | zero =>
      intro s a rest h
      cases h
  | succ steps ih =>
      intro s a rest h
      obtain ⟨stepsWider, rfl⟩ : exists n, stepsWider = n + 1 := ⟨stepsWider - 1, by omega⟩
      rw [members] at h ⊢
      obtain ⟨next, hnext, h⟩ := bind_eq_ok.mp h
      refine bind_eq_ok.mpr ⟨_, nextKey_append hnext _, ?_⟩
      cases next with
      | close left =>
          cases h
          rfl
      | more left =>
          obtain ⟨⟨key, left⟩, hkey, h⟩ := bind_eq_ok.mp h
          obtain ⟨⟨after, left⟩, hafter, h⟩ := bind_eq_ok.mp h
          have hrest := ih (Nat.le_of_succ_le_succ hsteps) false after _ _ _ h
          exact bind_eq_ok.mpr ⟨_, text_append hsteps hkey _,
            bind_eq_ok.mpr ⟨_, hstep _ _ _ _ _ hafter, hrest⟩⟩

/-!
## Values
-/

theorem memberInto_brace {value wider : Reader Json} {more : List Char}
    (hvalue : Extends more value wider) (o : Members) (key : List Char) :
    Extends more (memberInto value o key) (memberInto wider o key) := by
  intro s a rest h
  obtain ⟨left, hleft, h⟩ := bind_eq_ok.mp h
  obtain ⟨⟨j, left⟩, hj, h⟩ := bind_eq_ok.mp h
  cases h
  have hcolon := colon_eq_ok.mpr (skipBlanks_append (colon_eq_ok.mp hleft) ('\x7d' :: more))
  exact bind_eq_ok.mpr ⟨_, hcolon, bind_eq_ok.mpr ⟨_, hvalue _ _ _ hj, rfl⟩⟩

theorem valueWith_digit {steps : Nat} {nested? : Option (Reader Json)} {s t : List Char}
    (hs : skipBlanks s = t) (hdigit : startsWithDigit t = true) :
    valueWith steps nested? s = numeral false t >>= fun x => .ok (.number x.1, x.2) := by
  rw [valueWith, hs]
  split
  case h_9 => exact if_pos hdigit
  all_goals cases hdigit

theorem wordValue_append {w s rest : List Char} {a b : α}
    (h : (word w s >>= fun left => .ok (a, left)) = .ok (b, rest)) (tail : List Char) :
    (word w (s ++ tail) >>= fun left => .ok (a, left)) = .ok (b, rest ++ tail) := by
  obtain ⟨left, hw, heq⟩ := bind_eq_ok.mp h
  cases heq
  exact bind_eq_ok.mpr ⟨_, word_append hw tail, rfl⟩

theorem bind_brace {β : Type} {f : α -> β} {more rest : List Char} {b : β}
    {part widerPart : Except Fault (α × List Char)}
    (hpart : forall a left, part = .ok (a, left) -> widerPart = .ok (a, left ++ '\x7d' :: more))
    (h : (part >>= fun x => .ok (f x.1, x.2)) = .ok (b, rest)) :
    (widerPart >>= fun x => .ok (f x.1, x.2)) = .ok (b, rest ++ '\x7d' :: more) := by
  obtain ⟨⟨a, left⟩, hread, heq⟩ := bind_eq_ok.mp h
  cases heq
  exact bind_eq_ok.mpr ⟨_, hpart a left hread, rfl⟩

/-- One more level inside the value changes nothing, if what is inside is read further. -/
theorem valueWith_brace {nested? widerNested? : Option (Reader Json)} {more : List Char}
    (hnested : forall nested, nested? = some nested ->
      exists wider, widerNested? = some wider /\ Extends more nested wider)
    {steps stepsWider : Nat} (hsteps : steps ≤ stepsWider) :
    Extends more (valueWith steps nested?) (valueWith stepsWider widerNested?) := by
  intro s j rest h
  unfold valueWith at h
  split at h
  · cases h
  · rename_i hs
    rw [valueWith, skipBlanks_append hs]
    exact wordValue_append h _
  · rename_i hs
    rw [valueWith, skipBlanks_append hs]
    exact wordValue_append h _
  · rename_i hs
    rw [valueWith, skipBlanks_append hs]
    exact wordValue_append h _
  · rename_i hs
    rw [valueWith, skipBlanks_append hs]
    exact bind_brace (f := Json.number) (fun _ _ hn => numeral_brace hn more) h
  · rename_i hs
    rw [valueWith, skipBlanks_append hs]
    exact bind_brace (f := Json.string) (fun _ _ ht => text_append hsteps ht _) h
  · rename_i hs
    split at h
    · cases h
    · rename_i nested
      obtain ⟨wider, rfl, hwider⟩ := hnested nested rfl
      rw [valueWith, skipBlanks_append hs]
      exact bind_brace (f := Json.array) (fun _ _ hxs => items_brace hwider hsteps _ _ _ _ hxs) h
  · rename_i hs
    split at h
    · cases h
    · rename_i nested
      obtain ⟨wider, rfl, hwider⟩ := hnested nested rfl
      rw [valueWith, skipBlanks_append hs]
      have hstep := memberInto_brace hwider
      exact bind_brace (f := Json.object)
        (fun _ _ ho => members_brace hstep hsteps _ _ _ _ _ ho) h
  · split at h
    · rename_i hdigit
      cases hs : skipBlanks s with
      | nil =>
          rw [hs] at hdigit
          cases hdigit
      | cons c t =>
          rw [hs] at hdigit h
          rw [valueWith_digit (skipBlanks_append hs _) hdigit]
          exact bind_brace (f := Json.number) (fun _ _ hn => numeral_brace hn more) h
    · cases h

theorem value_brace {steps stepsWider : Nat} (hsteps : steps ≤ stepsWider) {depth deeper : Nat}
    (hdepth : depth ≤ deeper) (more : List Char) :
    Extends more (value steps depth) (value stepsWider deeper) := by
  induction depth generalizing deeper with
  | zero =>
      cases deeper
      all_goals
        refine valueWith_brace ?_ hsteps
        rintro nested ⟨⟩
  | succ depth ih =>
      obtain ⟨deeper, rfl⟩ : exists n, deeper = n + 1 := ⟨deeper - 1, by omega⟩
      refine valueWith_brace ?_ hsteps
      rintro nested ⟨⟩
      exact ⟨_, rfl, ih (Nat.le_of_succ_le_succ hdepth)⟩

/-!
## Whole texts
-/

theorem run_eq_ok {read : Nat -> Reader α} {s : List Char} {a : α} :
    run read s = .ok a <->
      exists rest, read (s.length + 1) s = .ok (a, rest) /\ skipBlanks rest = [] := by
  have honly : only (read (s.length + 1)) s = .ok a <->
      exists rest, read (s.length + 1) s = .ok (a, rest) /\ skipBlanks rest = [] := by
    rw [only, bind_eq_ok]
    constructor
    · rintro ⟨⟨b, rest⟩, hread, hend⟩
      dsimp only at hend
      split at hend
      · rename_i hrest
        cases hend
        exact ⟨rest, hread, hrest⟩
      · cases hend
    · rintro ⟨rest, hread, hrest⟩
      refine ⟨_, hread, ?_⟩
      dsimp only
      rw [hrest]
  rw [← honly, run]
  cases only (read (s.length + 1)) s with
  | ok b =>
      constructor <;> (rintro ⟨⟩; rfl)
  | error fault => exact ⟨nofun, nofun⟩

def isPlain (c : Char) : Bool :=
  c != '"' && c != '\\' && !decide (c.toNat < 0x20)

/-- A key without quotes, escapes and control characters is read as it stands. -/
theorem text_plain {steps : Nat} {key : List Char} (hsteps : key.length < steps)
    (hkey : key.all isPlain = true) (rest : List Char) :
    text steps (key ++ '"' :: rest) = .ok (key, rest) := by
  induction key generalizing steps with
  | nil =>
      obtain ⟨steps, rfl⟩ : exists n, steps = n + 1 := ⟨steps - 1, by simp at hsteps; omega⟩
      rfl
  | cons c key ih =>
      obtain ⟨steps, rfl⟩ : exists n, steps = n + 1 := ⟨steps - 1, by simp at hsteps; omega⟩
      rw [List.all_cons, Bool.and_eq_true] at hkey
      have hplain : c ≠ '"' /\ c ≠ '\\' /\ ¬ c.toNat < 0x20 := by
        simpa [isPlain, and_assoc] using hkey.left
      rw [List.cons_append, text.eq_5 _ _ _ hplain.left hplain.right.left,
        if_neg hplain.right.right]
      exact bind_eq_ok.mpr ⟨_, ih (Nat.lt_of_succ_lt_succ hsteps) hkey.right, rfl⟩

end Reader

namespace Json

open Reader

/-- The value that a text spells with arrays and objects at most so deep in each other. -/
def parseWithin (depth : Nat) (s : List Char) : Except SyntaxError Json :=
  run (fun steps => value steps depth) s

/-- The text of an object whose only member has the value of the given text. -/
def enclose (key : String) (s : List Char) : List Char :=
  '\x7b' :: '"' :: (key.toList ++ '"' :: ':' :: (s ++ ['\x7d']))

theorem parseWithin_enclose {key : String} (hkey : key.toList.all isPlain = true)
    {depth deeper : Nat} (hdepth : depth ≤ deeper) {s : List Char} {j : Json} (h : parseWithin depth s = .ok j) :
    parseWithin (deeper + 1) (enclose key s) = .ok (.object [(key.toList, j)]) := by
  obtain ⟨rest, hvalue, hrest⟩ := run_eq_ok.mp h
  obtain ⟨steps, hlength⟩ : exists n, (enclose key s).length + 1 = n + 2 :=
    ⟨(enclose key s).length - 1, by simp [enclose]⟩
  have hsteps : key.toList.length + s.length + 3 ≤ steps := by
    simp only [enclose, List.length_cons, List.length_append, List.length_nil] at hlength
    omega
  have hmember : memberInto (value (steps + 2) deeper) [] key.toList (':' :: (s ++ ['\x7d'])) =
      .ok ([(key.toList, j)], rest ++ ['\x7d']) :=
    bind_eq_ok.mpr ⟨_, colon_eq_ok.mpr rfl,
      bind_eq_ok.mpr ⟨_, value_brace (by omega) hdepth [] _ _ _ hvalue, rfl⟩⟩
  have hmembers : members (memberInto (value (steps + 2) deeper)) (steps + 2) true []
      ('"' :: (key.toList ++ '"' :: ':' :: (s ++ ['\x7d']))) = .ok ([(key.toList, j)], []) := by
    rw [members]
    refine bind_eq_ok.mpr ⟨_, nextKey_eq_ok.mpr (.first rfl), ?_⟩
    refine bind_eq_ok.mpr ⟨_, text_plain (by omega) hkey _, bind_eq_ok.mpr ⟨_, hmember, ?_⟩⟩
    dsimp only
    rw [members]
    exact bind_eq_ok.mpr ⟨_, nextKey_eq_ok.mpr (.close (skipBlanks_brace hrest [])), rfl⟩
  refine run_eq_ok.mpr ⟨[], ?_, rfl⟩
  rw [hlength]
  exact bind_eq_ok.mpr ⟨_, hmembers, rfl⟩

/-- A text has at most one value, however deep it is read. -/
theorem parseWithin_unique {depth deeper : Nat} (hdepth : depth ≤ deeper) {s : List Char}
    {j j' : Json} (h : parseWithin depth s = .ok j) (h' : parseWithin deeper s = .ok j') :
    j = j' := by
  have hkey : "".toList.all isPlain = true := rfl
  have hobject := parseWithin_enclose hkey hdepth h
  rw [parseWithin_enclose hkey (Nat.le_refl _) h'] at hobject
  cases hobject
  rfl

end Json
end SchemaTypes
