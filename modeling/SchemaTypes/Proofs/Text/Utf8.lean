import SchemaTypes.Text.Utf8

/-!
# Bytes of texts

Only a line feed is encoded with the byte of a line feed, so that lines of bytes
are lines of characters.  A text that is encoded is decoded to itself.
-/

namespace SchemaTypes
namespace Text

theorem feed_ne_ofNat {n : Nat} (hlow : 128 ≤ n) (hhigh : n < 256) : 10 ≠ UInt8.ofNat n := by
  intro h
  have hval := congrArg UInt8.toNat h
  rw [UInt8.toNat_ofNat', Nat.mod_eq_of_lt hhigh] at hval
  change 10 = n at hval
  omega

theorem toNat_lt_limit (c : Char) : c.toNat < 0x110000 := by
  have h := c.valid
  simp only [UInt32.isValidChar, Nat.isValidChar] at h
  change c.val.toNat < 0x110000
  omega

theorem feed_mem_encodeChar {c : Char} : 10 ∈ encodeChar c <-> c = '\n' := by
  have hlimit := toNat_lt_limit c
  constructor
  · intro h
    unfold encodeChar at h
    dsimp only at h
    split at h
    · rename_i hsmall
      have hval := congrArg UInt8.toNat (List.mem_singleton.mp h)
      rw [UInt8.toNat_ofNat', Nat.mod_eq_of_lt (by omega)] at hval
      exact Char.toNat_inj.mp hval.symm
    · exfalso
      revert h
      split
      · simp (disch := omega) only [List.mem_cons, List.not_mem_nil, feed_ne_ofNat, or_self,
          imp_self]
      · split
        · simp (disch := omega) only [List.mem_cons, List.not_mem_nil, feed_ne_ofNat, or_self,
          imp_self]
        · simp (disch := omega) only [List.mem_cons, List.not_mem_nil, feed_ne_ofNat, or_self,
          imp_self]
  · intro h
    rw [h]
    decide

theorem feed_mem_encode {s : List Char} : 10 ∈ encode s <-> '\n' ∈ s := by
  constructor
  · intro h
    obtain ⟨c, hc, hbyte⟩ := List.mem_flatMap.mp h
    rw [feed_mem_encodeChar.mp hbyte] at hc
    exact hc
  · intro h
    exact List.mem_flatMap.mpr ⟨'\n', h, feed_mem_encodeChar.mpr rfl⟩

/-!
## Decoding what is encoded

The bytes of a character are one piece, whatever comes after them.
-/

theorem toNat_ofNat {n : Nat} (h : n < 256) : (UInt8.ofNat n).toNat = n := by
  rw [UInt8.toNat_ofNat', Nat.mod_eq_of_lt h]

theorem toNat_not_surrogate (c : Char) : c.toNat < 0xD800 \/ 0xDFFF < c.toNat := by
  have h := c.valid
  simp only [UInt32.isValidChar, Nat.isValidChar] at h
  change c.val.toNat < 0xD800 \/ 0xDFFF < c.val.toNat
  omega

theorem pieces_one {a : UInt8} (rest : List UInt8) (ha : a.toNat < 0x80) :
    pieces (a :: rest) = .char (Char.ofNat a.toNat) :: pieces rest := by
  have hfollowers : followers? a.toNat = some 0 := by simp [followers?, ha]
  rw [pieces, hfollowers]
  rfl

/-- A byte may come second unless it makes a character too short, too long or a
surrogate. -/
theorem isSecond_of {first second : Nat} (hlow : 0x80 ≤ second) (hhigh : second ≤ 0xBF)
    (hshort : first = 0xE0 -> 0xA0 ≤ second) (hshorter : first = 0xF0 -> 0x90 ≤ second)
    (hsurrogate : first = 0xED -> second ≤ 0x9F) (hlong : first = 0xF4 -> second ≤ 0x8F) :
    isSecond first second = true := by
  have hmin : (if first = 0xE0 then 0xA0 else if first = 0xF0 then 0x90 else 0x80) ≤ second := by
    split
    · exact hshort ‹_›
    · split
      · exact hshorter ‹_›
      · exact hlow
  have hmax : second ≤ (if first = 0xED then 0x9F else if first = 0xF4 then 0x8F else 0xBF) := by
    split
    · exact hsurrogate ‹_›
    · split
      · exact hlong ‹_›
      · exact hhigh
  simp only [isSecond, Bool.and_eq_true, decide_eq_true_eq]
  exact ⟨hmin, hmax⟩

theorem pieces_two {a b : UInt8} (rest : List UInt8) (hlow : 0xC2 ≤ a.toNat)
    (hhigh : a.toNat ≤ 0xDF) (hb : isTail b.toNat = true) :
    pieces (a :: b :: rest) =
      .char (Char.ofNat (a.toNat % 0x20 * 0x40 + b.toNat % 0x40)) :: pieces rest := by
  have hfollowers : followers? a.toNat = some 1 := by
    simp [followers?, hlow, hhigh, show ¬ a.toNat < 0x80 by omega]
  have hsecond : isSecond a.toNat b.toNat = true := by
    simp only [isTail, Bool.and_eq_true, decide_eq_true_eq] at hb
    exact isSecond_of hb.left hb.right (by omega) (by omega) (by omega) (by omega)
  rw [pieces.eq_def]
  simp [hfollowers, hsecond]

theorem pieces_three {a b c : UInt8} (rest : List UInt8) (hlow : 0xE0 ≤ a.toNat)
    (hhigh : a.toNat ≤ 0xEF) (hb : isSecond a.toNat b.toNat = true)
    (hc : isTail c.toNat = true) :
    pieces (a :: b :: c :: rest) =
      .char (Char.ofNat (a.toNat % 0x10 * 0x1000 + b.toNat % 0x40 * 0x40 + c.toNat % 0x40)) ::
        pieces rest := by
  have hfollowers : followers? a.toNat = some 2 := by
    simp [followers?, hlow, hhigh, show ¬ a.toNat < 0x80 by omega, show ¬ a.toNat ≤ 0xDF by omega]
  rw [pieces.eq_def]
  simp [hfollowers, hb, hc]

theorem pieces_four {a b c d : UInt8} (rest : List UInt8) (hlow : 0xF0 ≤ a.toNat)
    (hhigh : a.toNat ≤ 0xF4) (hb : isSecond a.toNat b.toNat = true)
    (hc : isTail c.toNat = true) (hd : isTail d.toNat = true) :
    pieces (a :: b :: c :: d :: rest) =
      .char (Char.ofNat (a.toNat % 8 * 0x40000 + b.toNat % 0x40 * 0x1000 +
        c.toNat % 0x40 * 0x40 + d.toNat % 0x40)) :: pieces rest := by
  have hfollowers : followers? a.toNat = some 3 := by
    simp [followers?, hlow, hhigh, show ¬ a.toNat < 0x80 by omega, show ¬ a.toNat ≤ 0xDF by omega,
      show ¬ a.toNat ≤ 0xEF by omega]
  rw [pieces.eq_def]
  simp [hfollowers, hb, hc, hd]

theorem isTail_ofNat (n : Nat) : isTail (UInt8.ofNat (0x80 + n % 0x40)).toNat = true := by
  rw [toNat_ofNat (by omega)]
  simp only [isTail, Bool.and_eq_true, decide_eq_true_eq]
  omega

theorem pieces_encodeChar (c : Char) (rest : List UInt8) :
    pieces (encodeChar c ++ rest) = .char c :: pieces rest := by
  have hlimit := toNat_lt_limit c
  have hvalid := toNat_not_surrogate c
  have hback : forall n, n = c.toNat -> Piece.char (Char.ofNat n) = .char c := by
    intro n hn
    rw [hn, Char.ofNat_toNat]
  unfold encodeChar
  generalize hn : c.toNat = n at hlimit hvalid hback
  have hmod : forall m, 0x80 + m % 0x40 < 256 := fun m => by omega
  dsimp only
  split
  · rename_i hone
    have ha := @toNat_ofNat n (by omega)
    rw [List.cons_append, pieces_one _ (by omega), ha, hback n rfl, List.nil_append]
  split
  · rename_i hone htwo
    have ha := @toNat_ofNat (0xC0 + n / 0x40) (by omega)
    have hb := toNat_ofNat (hmod n)
    rw [List.cons_append, List.cons_append, pieces_two _ (by omega) (by omega) (isTail_ofNat n), ha, hb,
      hback _ (by omega), List.nil_append]
  split
  · rename_i hone htwo hthree
    have ha := @toNat_ofNat (0xE0 + n / 0x1000) (by omega)
    have hb := toNat_ofNat (hmod (n / 0x40))
    have hc := toNat_ofNat (hmod n)
    have hsecond : isSecond (UInt8.ofNat (0xE0 + n / 0x1000)).toNat
        (UInt8.ofNat (0x80 + n / 0x40 % 0x40)).toNat = true := by
      rw [ha, hb]
      exact isSecond_of (by omega) (by omega) (by omega) (by omega) (by omega) (by omega)
    rw [List.cons_append, List.cons_append, List.cons_append,
      pieces_three _ (by omega) (by omega) hsecond (isTail_ofNat n), ha, hb, hc, hback _ (by omega),
      List.nil_append]
  · rename_i hone htwo hthree
    have ha := @toNat_ofNat (0xF0 + n / 0x40000) (by omega)
    have hb := toNat_ofNat (hmod (n / 0x1000))
    have hc := toNat_ofNat (hmod (n / 0x40))
    have hd := toNat_ofNat (hmod n)
    have hsecond : isSecond (UInt8.ofNat (0xF0 + n / 0x40000)).toNat
        (UInt8.ofNat (0x80 + n / 0x1000 % 0x40)).toNat = true := by
      rw [ha, hb]
      exact isSecond_of (by omega) (by omega) (by omega) (by omega) (by omega) (by omega)
    rw [List.cons_append, List.cons_append, List.cons_append, List.cons_append,
      pieces_four _ (by omega) (by omega) hsecond (isTail_ofNat _) (isTail_ofNat n), ha, hb, hc, hd,
      hback _ (by omega), List.nil_append]

theorem pieces_encode (s : List Char) : pieces (encode s) = s.map .char := by
  induction s with
  | nil => rfl
  | cons c rest ih =>
      have hcons : encode (c :: rest) = encodeChar c ++ encode rest := rfl
      rw [hcons, pieces_encodeChar, ih, List.map_cons]

theorem charsFrom_chars (index : Nat) (s : List Char) : charsFrom index (s.map .char) = .ok s := by
  induction s generalizing index with
  | nil => rfl
  | cons c rest ih =>
      rw [List.map_cons, charsFrom, ih]

theorem decode_encode (s : List Char) : decode (encode s) = .ok s := by
  rw [decode, pieces_encode, charsFrom_chars]

end Text

end SchemaTypes
