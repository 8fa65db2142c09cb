import SchemaTypes.Text.Blank

/-!
# Joining, collapsing and trimming texts

A joined text goes on with a separator in front of every further part, and a text
without blanks stays as it is when blanks are collapsed or trimmed.
-/

namespace SchemaTypes
namespace Text

theorem joinWith_cons (separator s : List Char) (rest : List (List Char)) :
    joinWith separator (s :: rest) = s ++ rest.flatMap (separator ++ ·) := by
  induction rest generalizing s with
  | nil => simp [joinWith]
  | cons t rest ih => simp [joinWith, ih]

theorem mem_joinWith (separator : List Char) {s : List Char} {ss : List (List Char)} {c : Char}
    (hs : s ∈ ss) (hc : c ∈ s) : c ∈ joinWith separator ss := by
  cases ss with
  | nil => cases hs
  | cons first rest =>
      rw [joinWith_cons, List.mem_append, List.mem_flatMap]
      rcases List.mem_cons.mp hs with rfl | hs
      · exact .inl hc
      · exact .inr ⟨s, hs, List.mem_append_right separator hc⟩

theorem of_mem_joinWith {separator : List Char} {ss : List (List Char)} {c : Char}
    (h : c ∈ joinWith separator ss) : c ∈ separator \/ exists s, s ∈ ss /\ c ∈ s := by
  cases ss with
  | nil => cases h
  | cons first rest =>
      rw [joinWith_cons, List.mem_append, List.mem_flatMap] at h
      rcases h with hc | ⟨s, hs, hc⟩
      · exact .inr ⟨first, List.mem_cons_self, hc⟩
      · rcases List.mem_append.mp hc with hc | hc
        · exact .inl hc
        · exact .inr ⟨s, List.mem_cons_of_mem first hs, hc⟩

theorem of_mem_wordsFrom {word s t : List Char} {c : Char} (ht : t ∈ wordsFrom word s) (hc : c ∈ t) :
    c ∈ word \/ (c ∈ s /\ isBlank c = false) := by
  have hword : t = word.reverse -> c ∈ word := fun heq => List.mem_reverse.mp (heq ▸ hc)
  induction s generalizing word with
  | nil =>
      rw [wordsFrom] at ht
      split at ht
      · cases ht
      · exact .inl (hword (List.mem_singleton.mp ht))
  | cons d rest ih =>
      have hlater : c ∈ rest /\ isBlank c = false -> c ∈ d :: rest /\ isBlank c = false :=
        And.imp_left (List.mem_cons_of_mem d)
      have hrest : t ∈ wordsFrom [] rest -> c ∈ d :: rest /\ isBlank c = false := by
        intro hmem
        rcases ih hmem (fun heq => by simp [heq] at hc) with hnil | hrest
        · cases hnil
        · exact hlater hrest
      rw [wordsFrom] at ht
      by_cases hblank : isBlank d = true
      · rw [if_pos hblank] at ht
        split at ht
        · exact .inr (hrest ht)
        · rcases List.mem_cons.mp ht with heq | hmem
          · exact .inl (hword heq)
          · exact .inr (hrest hmem)
      · rw [if_neg hblank] at ht
        have hcons : t = (d :: word).reverse -> c ∈ d :: word := fun heq =>
          List.mem_reverse.mp (heq ▸ hc)
        rcases ih ht hcons with hfirst | hrest
        · rcases List.mem_cons.mp hfirst with rfl | hmem
          · exact .inr ⟨List.mem_cons_self, Bool.eq_false_iff.mpr hblank⟩
          · exact .inl hmem
        · exact .inr (hlater hrest)

theorem of_mem_collapse {s : List Char} {c : Char} (h : c ∈ collapse s) :
    c = ' ' \/ (c ∈ s /\ isBlank c = false) := by
  rcases of_mem_joinWith h with hspace | ⟨t, ht, hc⟩
  · exact .inl (List.mem_singleton.mp hspace)
  · exact .inr ((of_mem_wordsFrom ht hc).resolve_left List.not_mem_nil)

theorem of_mem_trim {s : List Char} {c : Char} (h : c ∈ trim s) : c ∈ s := by
  have hend := (List.dropWhile_suffix isBlank).subset (List.mem_reverse.mp h)
  exact (List.dropWhile_suffix isBlank).subset (List.mem_reverse.mp hend)

theorem wordsFrom_visible (word : List Char) {s : List Char} (h : s.all (!isBlank ·) = true) :
    wordsFrom word s = if word.isEmpty && s.isEmpty then [] else [word.reverse ++ s] := by
  induction s generalizing word with
  | nil => cases word <;> simp [wordsFrom]
  | cons c rest ih =>
      rw [List.all_cons, Bool.and_eq_true, Bool.not_eq_true'] at h
      simp [wordsFrom, h.left, ih _ h.right]

theorem collapse_visible {s : List Char} (h : s.all (!isBlank ·) = true) : collapse s = s := by
  cases s with
  | nil => rfl
  | cons c rest =>
      rw [collapse, words, wordsFrom_visible [] h]
      rfl

theorem trimStart_cons {c : Char} (h : isBlank c = false) (s : List Char) :
    trimStart (c :: s) = c :: s := by
  simp [trimStart, h]

theorem trim_visible {s : List Char} (hfirst : s.head?.any isBlank = false)
    (hlast : s.getLast?.any isBlank = false) : trim s = s := by
  have hstart : trimStart s = s := by
    cases s with
    | nil => rfl
    | cons c rest => exact trimStart_cons (by simpa using hfirst) rest
  rw [trim, hstart, trimEnd]
  rw [← List.head?_reverse] at hlast
  have hend : s.reverse.dropWhile isBlank = s.reverse := by
    cases hrev : s.reverse with
    | nil => rfl
    | cons c rest =>
        rw [hrev] at hlast
        exact trimStart_cons (by simpa using hlast) rest
  rw [hend, List.reverse_reverse]

theorem trim_of_visible {s : List Char} (h : s.all (!isBlank ·) = true) : trim s = s := by
  simp only [List.all_eq_true, Bool.not_eq_true'] at h
  have hany : forall c, c ∈ s -> isBlank c = false := h
  refine trim_visible ?_ ?_
  · cases hfirst : s.head? with
    | none => rfl
    | some c => exact hany c (List.mem_of_head? hfirst)
  · cases hlast : s.getLast? with
    | none => rfl
    | some c => exact hany c (List.mem_of_getLast? hlast)

theorem head_dropWhile (s : List Char) : (s.dropWhile isBlank).head?.any isBlank = false := by
  have hhead := List.head?_dropWhile_not isBlank s
  cases hdrop : (s.dropWhile isBlank).head? with
  | none => rfl
  | some c =>
      rw [hdrop] at hhead
      exact hhead

theorem getLast_trim (s : List Char) : (trim s).getLast?.any isBlank = false := by
  rw [trim, trimEnd, List.getLast?_reverse]
  exact head_dropWhile _

theorem trim_trim (s : List Char) : trim (trim s) = trim s := by
  refine trim_visible ?_ (getLast_trim s)
  obtain ⟨t, ht⟩ := List.dropWhile_suffix (l := (trimStart s).reverse) isBlank
  have hstart : trim s ++ t.reverse = trimStart s := by
    rw [trim, trimEnd, ← List.reverse_append, ht, List.reverse_reverse]
  cases hhead : trim s with
  | nil => rfl
  | cons c rest =>
      have hfirst := head_dropWhile s
      rw [← trimStart, ← hstart, hhead] at hfirst
      exact hfirst

end Text
end SchemaTypes
