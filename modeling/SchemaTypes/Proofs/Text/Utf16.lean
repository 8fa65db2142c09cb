/-!
# Code units of UTF-16

A character beyond the basic plane is a pair of surrogates, and every other character is
a unit of its own.  No character is a surrogate, so no two texts have the same units.
-/

namespace SchemaTypes
namespace Text

def codeUnits (n : Nat) : List Nat :=
  if n < 0x10000 then [n]
  else [0xD800 + (n - 0x10000) / 0x400, 0xDC00 + (n - 0x10000) % 0x400]

def utf16 (s : List Char) : List Nat :=
  s.flatMap fun c => codeUnits c.toNat

@[simp] theorem utf16_nil : utf16 [] = [] :=
  rfl

@[simp] theorem utf16_cons (c : Char) (s : List Char) :
    utf16 (c :: s) = codeUnits c.toNat ++ utf16 s :=
  rfl

theorem codeUnits_ne_nil (n : Nat) : codeUnits n ≠ [] := by
  rw [codeUnits]
  split <;> exact List.cons_ne_nil _ _

theorem toNat_valid (c : Char) : c.toNat < 0xD800 \/ 0xDFFF < c.toNat /\ c.toNat < 0x110000 :=
  c.valid

/-- The units of a character are told from those of every other one, whatever follows. -/
theorem codeUnits_append_inj {c d : Char} {s t : List Nat}
    (h : codeUnits c.toNat ++ s = codeUnits d.toNat ++ t) : c = d /\ s = t := by
  have hc := toNat_valid c
  have hd := toNat_valid d
  have hsame : c.toNat = d.toNat /\ s = t := by
    unfold codeUnits at h
    split at h <;> split at h
    · simpa using h
    · simp only [List.cons_append, List.nil_append, List.cons.injEq] at h
      omega
    · simp only [List.cons_append, List.nil_append, List.cons.injEq] at h
      omega
    · simp only [List.cons_append, List.nil_append, List.cons.injEq] at h
      obtain ⟨hlead, htrail, hrest⟩ := h
      exact ⟨by omega, hrest⟩
  exact ⟨Char.toNat_inj.mp hsame.left, hsame.right⟩

theorem utf16_injective : Function.Injective utf16 := by
  intro s
  induction s with
  | nil =>
      intro t h
      cases t with
      | nil => rfl
      | cons d t =>
          rw [utf16_cons, utf16_nil] at h
          exact absurd (List.append_eq_nil_iff.mp h.symm).left (codeUnits_ne_nil _)
  | cons c s ih =>
      intro t h
      cases t with
      | nil =>
          rw [utf16_cons, utf16_nil] at h
          exact absurd (List.append_eq_nil_iff.mp h).left (codeUnits_ne_nil _)
      | cons d t =>
          obtain ⟨hfirst, hrest⟩ := codeUnits_append_inj h
          rw [hfirst, ih hrest]

end Text
end SchemaTypes
