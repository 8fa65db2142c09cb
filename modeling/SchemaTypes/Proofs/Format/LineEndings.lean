import SchemaTypes.Proofs.Format.Sources
import SchemaTypes.Proofs.TypeScript.Copying.Printing

/-!
# Line endings of formatted sources

The line endings of a source are taken away before it is read and put back behind the
formatted text, so they decide nothing but how the lines of that text end.
-/

namespace SchemaTypes

open TypeScript

variable {o : FormatOptions} {source t : List Char}

/-!
## Plain line endings
-/

/-- Text formatted with line feeds has no carriage return. -/
theorem cr_not_mem_format [Recovery] (hsource : Text.HasWholeEndings source) {printWidth tabWidth : Nat}
    (h : format ⟨printWidth, tabWidth, .lf⟩ source = .ok t) : '\r' ∉ t := by
  obtain ⟨_, rfl⟩ | ⟨program, hparse, _, rfl⟩ := of_format h
  · exact List.not_mem_nil
  · rw [Text.normalizeLines_eq_withFeeds hsource] at hparse
    exact Program.cr_not_mem_renderAll (Text.cr_not_mem_withFeeds source) hparse _ _

theorem feed_mem_renderAll {tabWidth : Nat} {ls : List Line} (h : Line.renderAll tabWidth ls ≠ []) :
    '\n' ∈ Line.renderAll tabWidth ls := by
  cases ls with
  | nil => exact absurd rfl h
  | cons l ls => simp [Line.renderAll, Line.render]

/-- Text formatted with line feeds has one, if it is not empty. -/
theorem feed_mem_format [Recovery] {printWidth tabWidth : Nat}
    (h : format ⟨printWidth, tabWidth, .lf⟩ source = .ok t) (hne : t ≠ []) : '\n' ∈ t := by
  obtain ⟨_, rfl⟩ | ⟨program, _, _, rfl⟩ := of_format h
  · exact absurd rfl hne
  · exact feed_mem_renderAll hne

/-!
## Other line endings
-/

theorem format_lf_congr [Recovery] {printWidth tabWidth : Nat} {source other : List Char}
    (h : Text.normalizeLines source = Text.normalizeLines other) :
    format ⟨printWidth, tabWidth, .lf⟩ source = format ⟨printWidth, tabWidth, .lf⟩ other := by
  simp only [format, h, EndOfLine.isPair, Bool.false_eq_true, if_false]

/-- Pairs are put in the place of the line feeds of the formatted text. -/
theorem format_eq_lf [Recovery] (printWidth tabWidth : Nat) (e : EndOfLine) (source : List Char) :
    format ⟨printWidth, tabWidth, e⟩ source =
      if e.isPair source then (format ⟨printWidth, tabWidth, .lf⟩ source).map Text.withPairs
      else format ⟨printWidth, tabWidth, .lf⟩ source := by
  have hcan : forall lines, FormatOptions.canIndent ⟨printWidth, tabWidth, e⟩ lines =
      FormatOptions.canIndent ⟨printWidth, tabWidth, .lf⟩ lines := fun _ => rfl
  unfold format
  dsimp only
  split
  · split <;> rfl
  · split
    · split <;> rfl
    · rw [hcan, Text.carriageReturns_eq_withPairs]
      split
      · split <;> rfl
      · split <;> rfl

theorem format_crlf [Recovery] (printWidth tabWidth : Nat) (source : List Char) :
    format ⟨printWidth, tabWidth, .crlf⟩ source =
      (format ⟨printWidth, tabWidth, .lf⟩ source).map Text.withPairs :=
  format_eq_lf printWidth tabWidth .crlf source

theorem format_auto_of_pair [Recovery] (printWidth tabWidth : Nat) (h : Text.OpensWithPair source) :
    format ⟨printWidth, tabWidth, .auto⟩ source = format ⟨printWidth, tabWidth, .crlf⟩ source := by
  rw [format_crlf, format_eq_lf, EndOfLine.isPair, (Text.firstEndingIsPair_iff source).mpr h, if_pos rfl]

theorem format_auto_of_feed [Recovery] (printWidth tabWidth : Nat) (h : ¬ Text.OpensWithPair source) :
    format ⟨printWidth, tabWidth, .auto⟩ source = format ⟨printWidth, tabWidth, .lf⟩ source := by
  rw [format_eq_lf, EndOfLine.isPair, if_neg (mt (Text.firstEndingIsPair_iff source).mp h)]

/-- Text formatted with any line ending is text without carriage returns, as it is or with
its line feeds in pairs. -/
theorem exists_plain_of_format [Recovery] (hsource : Text.HasWholeEndings source) {printWidth tabWidth : Nat}
    {e : EndOfLine} (h : format ⟨printWidth, tabWidth, e⟩ source = .ok t) :
    exists plain, '\r' ∉ plain /\ (plain ≠ [] -> '\n' ∈ plain) /\
      ((e.isPair source = false /\ t = plain) \/ (e.isPair source = true /\ t = Text.withPairs plain)) := by
  rw [format_eq_lf] at h
  cases hlf : format ⟨printWidth, tabWidth, .lf⟩ source with
  | error =>
      rw [hlf] at h
      split at h <;> cases h
  | ok plain =>
      refine ⟨plain, cr_not_mem_format hsource hlf, feed_mem_format hlf, ?_⟩
      rw [hlf] at h
      split at h
      · rename_i hpair
        cases h
        exact .inr ⟨hpair, rfl⟩
      · rename_i hfeed
        cases h
        exact .inl ⟨Bool.eq_false_iff.mpr hfeed, rfl⟩

/-- Formatted text asks for the line ending it was given. -/
theorem isPair_auto_of_format [Recovery] (hsource : Text.HasWholeEndings source) {printWidth tabWidth : Nat}
    (h : format ⟨printWidth, tabWidth, .auto⟩ source = .ok t) (hne : t ≠ []) :
    Text.OpensWithPair t <-> Text.OpensWithPair source := by
  obtain ⟨plain, hplain, hfeed, ⟨hpair, rfl⟩ | ⟨hpair, rfl⟩⟩ := exists_plain_of_format hsource h
  · rw [← Text.firstEndingIsPair_iff, ← Text.firstEndingIsPair_iff,
      Text.firstEndingIsPair_of_normalized (Text.normalizeLines_of_plain hplain)]
    rw [EndOfLine.isPair] at hpair
    rw [hpair]
  · have hplainNe : plain ≠ [] := by
      rintro rfl
      exact hne rfl
    rw [← Text.firstEndingIsPair_iff, ← Text.firstEndingIsPair_iff,
      ← Text.carriageReturns_eq_withPairs, Text.firstEndingIsPair_carriageReturns (hfeed hplainNe)]
    rw [EndOfLine.isPair] at hpair
    rw [hpair]

/-!
## All line endings
-/

/-- How the lines of a source end decides how the lines of its formatted text end, and
nothing else. -/
theorem format_lineEndings [Recovery] {s : List Char} (hs : Text.HasWholeEndings s) (printWidth tabWidth : Nat) :
    (format ⟨printWidth, tabWidth, .lf⟩ (Text.withFeeds s) = format ⟨printWidth, tabWidth, .lf⟩ s /\
      format ⟨printWidth, tabWidth, .lf⟩ (Text.withPairs (Text.withFeeds s)) =
        format ⟨printWidth, tabWidth, .lf⟩ s /\
      forall t, format ⟨printWidth, tabWidth, .lf⟩ s = .ok t -> '\r' ∉ t) /\
    format ⟨printWidth, tabWidth, .crlf⟩ s =
      (format ⟨printWidth, tabWidth, .lf⟩ s).map Text.withPairs /\
    (Text.OpensWithPair s ->
      format ⟨printWidth, tabWidth, .auto⟩ s = format ⟨printWidth, tabWidth, .crlf⟩ s) /\
    (¬ Text.OpensWithPair s ->
      format ⟨printWidth, tabWidth, .auto⟩ s = format ⟨printWidth, tabWidth, .lf⟩ s) /\
    (forall e t, format ⟨printWidth, tabWidth, e⟩ s = .ok t ->
      '\r' ∉ t \/ exists plain, '\r' ∉ plain /\ t = Text.withPairs plain) /\
    forall t, format ⟨printWidth, tabWidth, .auto⟩ s = .ok t ->
      (t ≠ [] -> (Text.OpensWithPair t <-> Text.OpensWithPair s)) /\
      (Text.OpensWithPair s ->
        format ⟨printWidth, tabWidth, .auto⟩ t = format ⟨printWidth, tabWidth, .crlf⟩ t) /\
      (¬ Text.OpensWithPair s ->
        format ⟨printWidth, tabWidth, .auto⟩ t = format ⟨printWidth, tabWidth, .lf⟩ t) := by
  have hplain := Text.normalizeLines_eq_withFeeds hs
  have hfeeds := Text.cr_not_mem_withFeeds s
  refine ⟨⟨?_, ?_, fun t ht => cr_not_mem_format hs ht⟩, format_crlf _ _ _,
    format_auto_of_pair printWidth tabWidth, format_auto_of_feed printWidth tabWidth, ?_, ?_⟩
  · exact format_lf_congr (by rw [hplain, Text.normalizeLines_of_plain hfeeds])
  · exact format_lf_congr (by rw [hplain, Text.normalizeLines_withPairs])
  · intro e t ht
    obtain ⟨plain, hplain, _, ⟨_, rfl⟩ | ⟨_, rfl⟩⟩ := exists_plain_of_format hs ht
    · exact .inl hplain
    · exact .inr ⟨plain, hplain, rfl⟩
  · intro t ht
    by_cases hne : t = []
    · rw [hne]
      simp [format_nil]
    · have hiff := isPair_auto_of_format hs ht hne
      exact ⟨fun _ => hiff, fun hpair => format_auto_of_pair _ _ (hiff.mpr hpair),
        fun hfeed => format_auto_of_feed _ _ (mt hiff.mp hfeed)⟩

/-- The pairs of a source are kept. -/
theorem format_lineEndings_pairs :
    Text.HasWholeEndings (Text.withPairs "type A = B;\n".toList) /\
      format ⟨100, 2, .crlf⟩ (Text.withPairs "type A = B;\n".toList) =
        (format ⟨100, 2, .lf⟩ (Text.withPairs "type A = B;\n".toList)).map Text.withPairs := by
  have hwhole : Text.HasWholeEndings (Text.withPairs "type A = B;\n".toList) :=
    Text.hasWholeEndings_withPairs (by simp)
  exact ⟨hwhole, (format_lineEndings hwhole 100 2).right.left⟩

end SchemaTypes
