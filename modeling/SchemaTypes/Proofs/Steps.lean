/-!
# Steps one after the other

A program goes on from what its first step gives: from a result, unless the step fails,
and from the disk that the step leaves.
-/

namespace SchemaTypes

/-!
## Steps that can fail
-/

theorem bind_eq_ok {ε α β : Type} {x : Except ε α} {f : α -> Except ε β} {b : β} :
    (x >>= f) = .ok b <-> exists a, x = .ok a /\ f a = .ok b := by
  cases x with
  | ok a => simp [bind, Except.bind]
  | error e => simp [bind, Except.bind]

theorem bind_eq_error {ε α β : Type} {x : Except ε α} {f : α -> Except ε β} {e : ε} :
    (x >>= f) = .error e <-> x = .error e \/ exists a, x = .ok a /\ f a = .error e := by
  cases x with
  | ok a => simp [bind, Except.bind]
  | error e' => simp [bind, Except.bind]

/-- A step that always ends well fails only where it starts from a failure. -/
theorem eq_error_of_bind_ok {ε α β : Type} {x : Except ε α} {f : α -> β} {e : ε}
    (h : (x >>= fun a => .ok (f a)) = .error e) : x = .error e := by
  cases bind_eq_error.mp h with
  | inl hx => exact hx
  | inr hf =>
      obtain ⟨a, _, hf⟩ := hf
      cases hf

theorem toOption_eq_some {ε α : Type} {x : Except ε α} {a : α} :
    x.toOption = some a <-> x = .ok a := by
  cases x with
  | ok b => simp [Except.toOption]
  | error e => simp [Except.toOption]

/-!
## Steps on a disk
-/

theorem run_step {σ α β : Type} (x : StateM σ α) (f : α -> StateM σ β) (s : σ) :
    (x >>= f).run s = (f (x.run s).1).run (x.run s).2 :=
  rfl

end SchemaTypes
