import SchemaTypes.Proofs.Json.Enclosing

/-!
# Texts nested too deep

A reader that goes less deep reads what a deeper one reads, or it stops where an array or an
object lies too deep for it.  There is no other fault that it finds.
-/

namespace SchemaTypes
namespace Reader

variable {α β : Type}

inductive UnlessTooDeep (x : α) : Except Fault α -> Prop
  | ok : UnlessTooDeep x (.ok x)
  | tooDeep {fault : Fault} (h : fault.problem = .tooDeep) : UnlessTooDeep x (.error fault)

theorem unlessTooDeep_of_eq_ok {x : α} {read : Except Fault α} (h : read = .ok x) :
    UnlessTooDeep x read := by
  rw [h]
  exact .ok

theorem UnlessTooDeep.bind {x : α} {y : β} {read : Except Fault α} {next : α -> Except Fault β}
    (hx : UnlessTooDeep x read) (hy : UnlessTooDeep y (next x)) :
    UnlessTooDeep y (read >>= next) := by
  cases hx with
  | ok => exact hy
  | tooDeep h => exact .tooDeep h

/-- What the first reader reads, the second one reads unless it is too deep. -/
def Covers (read shallower : Reader α) : Prop :=
  forall s x, read s = .ok x -> UnlessTooDeep x (shallower s)

theorem items_covers {item shallower : Reader α} (hitem : Covers item shallower) (steps : Nat)
    (first : Bool) : Covers (items item steps first) (items shallower steps first) := by
  induction steps generalizing first with
  | zero =>
      intro s x h
      cases h
  | succ steps ih =>
      intro s x h
      rw [items] at h ⊢
      rcases bind_eq_ok.mp h with ⟨next, hnext, h⟩
      apply (unlessTooDeep_of_eq_ok hnext).bind
      cases next with
      | close left => exact unlessTooDeep_of_eq_ok h
      | more left =>
          rcases bind_eq_ok.mp h with ⟨⟨y, left⟩, hy, h⟩
          rcases bind_eq_ok.mp h with ⟨⟨further, left⟩, hfurther, h⟩
          exact (hitem _ _ hy).bind ((ih false _ _ hfurther).bind (unlessTooDeep_of_eq_ok h))

theorem members_covers {step shallower : α -> List Char -> Reader α}
    (hstep : forall state key, Covers (step state key) (shallower state key)) (steps : Nat)
    (first : Bool) (state : α) :
    Covers (members step steps first state) (members shallower steps first state) := by
  induction steps generalizing first state with
  | zero =>
      intro s x h
      cases h
  | succ steps ih =>
      intro s x h
      rw [members] at h ⊢
      rcases bind_eq_ok.mp h with ⟨next, hnext, h⟩
      apply (unlessTooDeep_of_eq_ok hnext).bind
      cases next with
      | close left => exact unlessTooDeep_of_eq_ok h
      | more left =>
          rcases bind_eq_ok.mp h with ⟨⟨key, left⟩, hkey, h⟩
          rcases bind_eq_ok.mp h with ⟨⟨after, left⟩, hafter, h⟩
          exact (unlessTooDeep_of_eq_ok hkey).bind
            ((hstep _ _ _ _ hafter).bind (ih false _ _ _ h))

theorem memberInto_covers {value shallower : Reader Json} (hvalue : Covers value shallower)
    (o : Members) (key : List Char) :
    Covers (memberInto value o key) (memberInto shallower o key) := by
  intro s x h
  rcases bind_eq_ok.mp h with ⟨left, hleft, h⟩
  rcases bind_eq_ok.mp h with ⟨⟨j, left⟩, hj, h⟩
  exact (unlessTooDeep_of_eq_ok hleft).bind ((hvalue _ _ hj).bind (unlessTooDeep_of_eq_ok h))

theorem valueWith_covers {nested? shallower? : Option (Reader Json)}
    (hnested : forall nested shallower, nested? = some nested -> shallower? = some shallower ->
      Covers nested shallower) (steps : Nat) :
    Covers (valueWith steps nested?) (valueWith steps shallower?) := by
  intro s x h
  unfold valueWith at h
  split at h
  · cases h
  · rename_i hs
    rw [valueWith, hs]
    exact unlessTooDeep_of_eq_ok h
  · rename_i hs
    rw [valueWith, hs]
    exact unlessTooDeep_of_eq_ok h
  · rename_i hs
    rw [valueWith, hs]
    exact unlessTooDeep_of_eq_ok h
  · rename_i hs
    rw [valueWith, hs]
    exact unlessTooDeep_of_eq_ok h
  · rename_i hs
    rw [valueWith, hs]
    exact unlessTooDeep_of_eq_ok h
  · rename_i hs
    rw [valueWith, hs]
    cases nested? with
    | none => cases h
    | some nested =>
        rcases bind_eq_ok.mp h with ⟨⟨xs, left⟩, hxs, h⟩
        cases shallower? with
        | none => exact .tooDeep rfl
        | some shallower =>
            have hitems := items_covers (hnested nested shallower rfl rfl) steps true _ _ hxs
            exact hitems.bind (unlessTooDeep_of_eq_ok h)
  · rename_i hs
    rw [valueWith, hs]
    cases nested? with
    | none => cases h
    | some nested =>
        rcases bind_eq_ok.mp h with ⟨⟨o, left⟩, ho, h⟩
        cases shallower? with
        | none => exact .tooDeep rfl
        | some shallower =>
            have hstep := memberInto_covers (hnested nested shallower rfl rfl)
            exact (members_covers hstep steps true [] _ _ ho).bind (unlessTooDeep_of_eq_ok h)
  · split at h
    · rename_i hdigit
      rw [valueWith_digit rfl hdigit]
      exact unlessTooDeep_of_eq_ok h
    · cases h

theorem value_covers (steps depth shallower : Nat) :
    Covers (value steps depth) (value steps shallower) := by
  induction depth generalizing shallower with
  | zero =>
      cases shallower
      all_goals
        apply valueWith_covers
        intro _ _ hnested
        cases hnested
  | succ depth ih =>
      cases shallower with
      | zero =>
          apply valueWith_covers
          intro _ _ _ hshallower
          cases hshallower
      | succ shallower =>
          apply valueWith_covers
          intro _ _ hnested hshallower
          cases hnested
          cases hshallower
          exact ih shallower

end Reader
end SchemaTypes
