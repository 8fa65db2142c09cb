import SchemaTypes.Text.Blank

/-!
# Line endings

A text without carriage returns has plain line endings.  Pairs can be put in the place
of the line feeds of a text and taken away again, and the first line ending tells which of
the two has been done, if there were no pairs before.
-/

namespace SchemaTypes
namespace Text

variable {s t : List Char}

/-!
## Plain texts
-/

theorem normalizeLines_cons {c : Char} (h : forall rest, c = '\r' -> s = '\n' :: rest -> False) :
    normalizeLines (c :: s) = c :: normalizeLines s :=
  normalizeLines.eq_3 c s h

theorem normalizeLines_pair (s : List Char) :
    normalizeLines ('\r' :: '\n' :: s) = '\n' :: normalizeLines s :=
  rfl

theorem normalizeLines_cons_eq_iff {c : Char} :
    normalizeLines (c :: s) = c :: s <->
      (c = '\r' -> s.head? ≠ some '\n') /\ normalizeLines s = s := by
  by_cases hpair : exists rest, c = '\r' /\ s = '\n' :: rest
  · obtain ⟨rest, rfl, rfl⟩ := hpair
    simp [normalizeLines_pair]
  · have hcons : normalizeLines (c :: s) = c :: normalizeLines s :=
      normalizeLines_cons fun rest hc hs => hpair ⟨rest, hc, hs⟩
    have hhead : c = '\r' -> s.head? ≠ some '\n' := by
      intro hc hs
      obtain ⟨rest, hrest⟩ := List.head?_eq_some_iff.mp hs
      exact hpair ⟨rest, hc, hrest⟩
    rw [hcons, List.cons.injEq]
    exact ⟨fun h => ⟨hhead, h.right⟩, fun h => ⟨rfl, h.right⟩⟩

/-- Texts are normalized one by one, if no pair stands across their border. -/
theorem normalizeLines_append (h : s.getLast? = some '\r' -> t.head? ≠ some '\n') :
    normalizeLines (s ++ t) = normalizeLines s ++ normalizeLines t := by
  induction s using normalizeLines.induct with
  | case1 => rfl
  | case2 rest ih =>
      have hrest := ih fun hlast => h (by simp [List.getLast?_cons, hlast])
      simp only [List.cons_append, normalizeLines_pair, hrest]
  | case3 c rest hpair ih =>
      have hrest := ih fun hlast => h (by simp [List.getLast?_cons, hlast])
      have hborder : forall more, c = '\r' -> rest ++ t = '\n' :: more -> False := by
        intro more hc hmore
        cases rest with
        | nil =>
            subst hc
            exact h rfl (by rw [List.nil_append] at hmore; rw [hmore]; rfl)
        | cons d rest =>
            rw [List.cons_append, List.cons.injEq] at hmore
            exact hpair rest hc (by rw [hmore.left])
      rw [List.cons_append, normalizeLines_cons hborder, normalizeLines_cons hpair, hrest,
        List.cons_append]

theorem normalizeLines_of_plain (h : '\r' ∉ s) : normalizeLines s = s := by
  induction s with
  | nil => rfl
  | cons c rest ih =>
      rw [List.mem_cons, not_or] at h
      rw [normalizeLines_cons fun _ hc _ => h.left hc.symm, ih h.right]

/-- The start of a text without pairs has none. -/
theorem normalizeLines_left (h : normalizeLines (s ++ t) = s ++ t) : normalizeLines s = s := by
  induction s with
  | nil => rfl
  | cons c rest ih =>
      rw [List.cons_append, normalizeLines_cons_eq_iff] at h
      rw [normalizeLines_cons_eq_iff]
      refine ⟨fun hc hhead => h.left hc ?_, ih h.right⟩
      rw [List.head?_append, hhead]
      rfl

/-- Carriage returns are all that line endings lose. -/
theorem mem_normalizeLines {c : Char} (hc : c ≠ '\r') (h : c ∈ s) : c ∈ normalizeLines s := by
  induction s using normalizeLines.induct with
  | case1 => cases h
  | case2 rest ih =>
      rw [normalizeLines_pair]
      simp only [List.mem_cons] at h ⊢
      rcases h with rfl | rfl | h
      · exact absurd rfl hc
      · exact .inl rfl
      · exact .inr (ih h)
  | case3 d rest hpair ih =>
      rw [normalizeLines_cons hpair]
      simp only [List.mem_cons] at h ⊢
      rcases h with rfl | h
      · exact .inl rfl
      · exact .inr (ih h)

theorem firstEndingIsPair_of_normalized (h : normalizeLines s = s) :
    firstEndingIsPair s = false := by
  fun_induction firstEndingIsPair s with
  | case1 => rfl
  | case2 => rfl
  | case3 rest =>
      rw [normalizeLines_cons_eq_iff] at h
      exact absurd rfl (h.left rfl)
  | case4 c rest _ _ ih =>
      rw [normalizeLines_cons_eq_iff] at h
      exact ih h.right

/-!
## Pairs
-/

@[simp] theorem carriageReturns_nil : carriageReturns [] = [] :=
  rfl

theorem carriageReturns_cons (c : Char) (s : List Char) :
    carriageReturns (c :: s) =
      if c = '\n' then '\r' :: '\n' :: carriageReturns s else c :: carriageReturns s :=
  rfl

theorem carriageReturns_append (s t : List Char) :
    carriageReturns (s ++ t) = carriageReturns s ++ carriageReturns t := by
  induction s with
  | nil => rfl
  | cons c rest ih =>
      rw [List.cons_append, carriageReturns_cons, carriageReturns_cons]
      split <;> simp [ih]

theorem carriageReturns_of_no_feed (h : '\n' ∉ s) : carriageReturns s = s := by
  induction s with
  | nil => rfl
  | cons c rest ih =>
      rw [List.mem_cons, not_or] at h
      rw [carriageReturns_cons, if_neg (fun heq => h.left heq.symm), ih h.right]

theorem carriageReturns_ne_feed (s rest : List Char) : carriageReturns s ≠ '\n' :: rest := by
  intro heq
  cases s with
  | nil => cases heq
  | cons c s =>
      rw [carriageReturns_cons] at heq
      split at heq
      · cases heq
      · rename_i hne
        rw [List.cons.injEq] at heq
        exact hne heq.left

/-- Pairs are taken away again. -/
theorem normalizeLines_carriageReturns (s : List Char) :
    normalizeLines (carriageReturns s) = s := by
  induction s with
  | nil => rfl
  | cons c rest ih =>
      rw [carriageReturns_cons]
      split
      · rename_i hfeed
        rw [normalizeLines_pair, ih, hfeed]
      · rw [normalizeLines_cons (fun more _ heq => carriageReturns_ne_feed rest more heq), ih]

/-- A text with a line feed shows its pairs. -/
theorem firstEndingIsPair_carriageReturns (hfeed : '\n' ∈ s) :
    firstEndingIsPair (carriageReturns s) = true := by
  induction s with
  | nil => cases hfeed
  | cons c rest ih =>
      rw [carriageReturns_cons]
      split
      · rfl
      · rename_i hne
        have hrest := (List.mem_cons.mp hfeed).resolve_left fun heq => hne heq.symm
        rw [firstEndingIsPair.eq_4 c _ hne (fun more _ heq => carriageReturns_ne_feed rest more heq),
          ih hrest]

/-!
## Spellings of line endings

A text has whole line endings if no carriage return stands outside of them.  Each of its
line endings can then be spelled in two ways.
-/

/-- Every carriage return stands directly before a line feed. -/
def HasWholeEndings (s : List Char) : Prop :=
  forall before after, s = before ++ '\r' :: after -> exists rest, after = '\n' :: rest

/-- The text with line feeds alone for its line endings. -/
def withFeeds (s : List Char) : List Char :=
  s.filter (· != '\r')

/-- The text with a pair for every line feed. -/
def withPairs (s : List Char) : List Char :=
  s.flatMap fun c => if c = '\n' then ['\r', '\n'] else [c]

/-- The first line of the text ends in a pair. -/
def OpensWithPair (s : List Char) : Prop :=
  exists line rest, s = line ++ '\r' :: '\n' :: rest /\ '\n' ∉ line

theorem cr_not_mem_withFeeds (s : List Char) : '\r' ∉ withFeeds s := by
  intro hmem
  simpa using (List.mem_filter.mp hmem).right

theorem HasWholeEndings.tail {c : Char} (h : HasWholeEndings (c :: s)) : HasWholeEndings s := by
  intro before after heq
  exact h (c :: before) after (by rw [heq, List.cons_append])

theorem carriageReturns_eq_withPairs (s : List Char) : carriageReturns s = withPairs s := by
  induction s with
  | nil => rfl
  | cons c rest ih =>
      rw [carriageReturns_cons, withPairs, List.flatMap_cons, ← withPairs, ih]
      split <;> rfl

theorem normalizeLines_eq_withFeeds (h : HasWholeEndings s) : normalizeLines s = withFeeds s := by
  induction s using normalizeLines.induct with
  | case1 => rfl
  | case2 rest ih =>
      rw [normalizeLines_pair, ih h.tail.tail]
      rfl
  | case3 c rest hpair ih =>
      have hc : c ≠ '\r' := by
        intro heq
        obtain ⟨rest', hrest⟩ := h [] rest (by rw [heq, List.nil_append])
        exact hpair rest' heq hrest
      rw [normalizeLines_cons hpair, ih h.tail, withFeeds, withFeeds, List.filter_cons_of_pos]
      simpa using hc

theorem normalizeLines_withPairs (s : List Char) : normalizeLines (withPairs s) = s := by
  rw [← carriageReturns_eq_withPairs, normalizeLines_carriageReturns]

theorem firstEndingIsPair_iff (s : List Char) : firstEndingIsPair s = true <-> OpensWithPair s := by
  fun_induction firstEndingIsPair s with
  | case1 => simp [OpensWithPair]
  | case2 rest =>
      refine ⟨nofun, fun ⟨line, rest', heq, hline⟩ => ?_⟩
      cases line with
      | nil => cases heq
      | cons c line =>
          cases heq
          simp at hline
  | case3 rest => exact ⟨fun _ => ⟨[], rest, rfl, List.not_mem_nil⟩, fun _ => rfl⟩
  | case4 c rest hfeed hpair ih =>
      rw [ih]
      constructor
      · rintro ⟨line, rest', rfl, hline⟩
        refine ⟨c :: line, rest', rfl, ?_⟩
        simpa [hline] using Ne.symm hfeed
      · rintro ⟨line, rest', heq, hline⟩
        cases line with
        | nil =>
            cases heq
            exact absurd rfl (hpair _ rfl)
        | cons d line =>
            cases heq
            exact ⟨line, rest', rfl, fun hmem => hline (List.mem_cons_of_mem _ hmem)⟩

theorem HasWholeEndings.cons {c : Char} (hc : c ≠ '\r') (h : HasWholeEndings s) :
    HasWholeEndings (c :: s) := by
  intro before after heq
  cases before with
  | nil =>
      cases heq
      exact absurd rfl hc
  | cons d before =>
      cases heq
      exact h before after rfl

theorem HasWholeEndings.pair (h : HasWholeEndings s) : HasWholeEndings ('\r' :: '\n' :: s) := by
  have hfeed : HasWholeEndings ('\n' :: s) := h.cons (by decide)
  intro before after heq
  cases before with
  | nil =>
      cases heq
      exact ⟨s, rfl⟩
  | cons d before =>
      rw [List.cons_append, List.cons.injEq] at heq
      exact hfeed before after heq.right

theorem hasWholeEndings_withPairs (h : '\r' ∉ s) : HasWholeEndings (withPairs s) := by
  induction s with
  | nil => exact fun before _ heq => by cases before <;> cases heq
  | cons c rest ih =>
      rw [List.mem_cons, not_or] at h
      rw [withPairs, List.flatMap_cons, ← withPairs]
      split
      · exact (ih h.right).pair
      · exact (ih h.right).cons (Ne.symm h.left)

end Text
end SchemaTypes
