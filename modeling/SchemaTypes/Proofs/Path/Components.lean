import SchemaTypes.Proofs.Path

/-!
# The components of a path

A path is the list of its components: the top if it is absolute, the directory where it
starts if its first segment is a dot, and then its steps up and its names.  Slashes that
are repeated or stand at the end, and dots elsewhere, are no components.  A file with a
plain name in a directory has the components of the directory and the name, and its
parent has those of the directory.
-/

namespace SchemaTypes
namespace Path

inductive Component where
  | root
  | current
  | up
  | name (n : List Char)
  deriving DecidableEq, Repr, Inhabited

def Component.ofSegment (s : List Char) : Component :=
  if s = ['.', '.'] then .up else .name s

def lead (p : Path) : List Component :=
  if isAbsolute p then [.root]
  else if (segments p).head? = some ['.'] then [.current]
  else []

def components (p : Path) : List Component :=
  lead p ++ (names (segments p)).map Component.ofSegment

/-!
## Plain names
-/

theorem isPlainName_iff (name : List Char) :
    isPlainName name = true <->
      name ≠ [] /\ '/' ∉ name /\ name ≠ ['.'] /\ name ≠ ['.', '.'] := by
  constructor
  · intro h
    obtain ⟨hslash, hidle, hup⟩ := isPlainName_facts h
    rw [isIdle, Bool.or_eq_false_iff] at hidle
    exact ⟨by simpa using hidle.left, hslash, by simpa using hidle.right, hup⟩
  · rintro ⟨hne, hslash, hdot, hup⟩
    have hidle : isIdle name = false := by
      simp [isIdle, hne, hdot]
    have hstart : splitStart name = ([], name) := by
      rcases splitStart_cases name with ⟨rest, rfl, _⟩ | ⟨rfl, _⟩ | ⟨rest, rfl, _⟩ | ⟨_, hsplit⟩
      · simp at hslash
      · exact absurd rfl hdot
      · simp at hslash
      · exact hsplit
    rw [isPlainName, beq_iff_eq, fileName?, hstart]
    dsimp only
    rw [segments_of_plain hslash, ← List.nil_append [name], dropIdleEnd_concat hidle]
    exact if_neg hup

/-!
## Files in a directory
-/

variable {p directory : Path} {before : List (List Char)} {name : List Char}

theorem isAbsolute_of_plain (h : '/' ∉ name) : isAbsolute name = false := by
  unfold isAbsolute
  split
  · simp at h
  · rfl

theorem exists_join (h : '/' ∉ name) (hne : directory ≠ []) :
    exists stem, join directory name = stem ++ '/' :: name /\
      (directory = stem \/ directory = stem ++ ['/']) := by
  obtain ⟨stem, last, hdirectory⟩ := (List.eq_nil_or_concat directory).resolve_left hne
  rw [List.concat_eq_append] at hdirectory
  have hlast : directory.getLast? = some last := by
    simp [hdirectory]
  rw [join, isAbsolute_of_plain h, hlast]
  by_cases hslash : last = '/'
  · subst hslash
    exact ⟨stem, by simp [hdirectory], .inr hdirectory⟩
  · exact ⟨directory, by simp, .inl rfl⟩

theorem directory_isPrefix_join (h : '/' ∉ name) (hne : directory ≠ []) :
    directory <+: join directory name := by
  obtain ⟨stem, hjoin, rfl | rfl⟩ := exists_join h hne
  · exact ⟨'/' :: name, hjoin.symm⟩
  · exact ⟨name, by rw [hjoin, List.append_assoc, List.singleton_append]⟩

/-- The segments before the name are those of the directory, with nothing behind them that
stands for a step. -/
theorem exists_segments_before (h : '/' ∉ name) (hne : directory ≠ []) :
    exists before, segments (join directory name) = before ++ [name] /\
      names before = names (segments directory) /\
      before.head? = (segments directory).head? := by
  obtain ⟨stem, hjoin, hdirectory⟩ := exists_join h hne
  refine ⟨segments stem, ?_, ?_⟩
  · rw [hjoin, segments_append_slash, segments_of_plain h]
  · rcases hdirectory with rfl | rfl
    · exact ⟨rfl, rfl⟩
    · have hsegments : segments (stem ++ ['/']) = segments stem ++ [[]] :=
        segments_append_slash stem []
      obtain ⟨first, more, hfirst⟩ := List.exists_cons_of_ne_nil (segments_ne_nil stem)
      rw [hsegments, names_append, hfirst]
      exact ⟨(List.append_nil _).symm, rfl⟩

theorem head?_of_before (hsegments : segments p = before ++ [name]) (hbefore : before ≠ []) :
    (segments p).head? = before.head? := by
  rw [hsegments, List.head?_append_of_ne_nil _ hbefore]

theorem components_join (h : isPlainName name = true) (hne : directory ≠ []) :
    components (join directory name) = components directory ++ [.name name] := by
  obtain ⟨hslash, hidle, hup⟩ := isPlainName_facts h
  obtain ⟨before, hsegments, hnames, hhead⟩ := exists_segments_before hslash hne
  have hbefore : before ≠ [] := by
    rintro rfl
    obtain ⟨first, more, hfirst⟩ := List.exists_cons_of_ne_nil (segments_ne_nil directory)
    rw [hfirst] at hhead
    cases hhead
  have hlead : lead (join directory name) = lead directory := by
    rw [lead, lead, head?_of_before hsegments hbefore, hhead,
      isAbsolute_of_isPrefix (directory_isPrefix_join hslash hne) hne]
  rw [components, components, hlead, hsegments, names_append, hnames, names_singleton hidle,
    List.map_append, List.append_assoc]
  simp [Component.ofSegment, hup]

/-!
## Parents
-/

theorem splitStart_of_dot (h : (segments p).head? = some ['.']) : (splitStart p).1 = ['.'] := by
  obtain ⟨first, more, hsegments⟩ := List.exists_cons_of_ne_nil (segments_ne_nil p)
  rw [hsegments] at h
  cases h
  rw [← ofSegments_segments p, hsegments]
  cases more <;> rfl

theorem lead_start (p : Path) : lead (splitStart p).1 = lead p := by
  rw [lead, lead, isAbsolute_start]
  split
  · rfl
  · rename_i hrelative
    by_cases hdot : (segments p).head? = some ['.']
    · rw [splitStart_of_dot hdot, hdot]
      rfl
    · rw [if_neg hdot]
      rcases splitStart_cases p with ⟨rest, rfl, _⟩ | ⟨rfl, _⟩ | ⟨rest, rfl, _⟩ | ⟨_, hsplit⟩
      · exact absurd rfl hrelative
      · exact absurd rfl hdot
      · exact absurd (congrArg List.head? (segments_append_slash ['.'] rest)) hdot
      · rw [hsplit]
        rfl

theorem exists_parent_components (hsegments : segments p = before ++ [name])
    (hname : isIdle name = false) :
    exists q, parent? p = some q /\
      components q = lead p ++ (names before).map Component.ofSegment := by
  obtain ⟨q, hparent, _, _, habsolute, hnames, _⟩ := exists_parent hsegments hname
  refine ⟨q, hparent, ?_⟩
  have hlead : lead q = lead p := by
    rw [parent?_of_named hsegments hname] at hparent
    by_cases hnil : dropIdleEnd before = []
    · rw [if_pos hnil] at hparent
      rw [← Option.some.inj hparent, lead_start]
    · rw [if_neg hnil] at hparent
      obtain ⟨cut, hcut⟩ : dropIdleEnd before <+: before := List.rdropWhile_prefix isIdle before
      have hparts : segments q = dropIdleEnd before := by
        rw [← Option.some.inj hparent]
        refine segments_ofSegments hnil fun part hpart => ?_
        refine slash_not_mem_segments (s := p) ?_
        rw [hsegments, ← hcut]
        simp [hpart]
      have hhead : (segments p).head? = (segments q).head? := by
        rw [hparts, hsegments]
        conv_lhs => rw [← hcut, List.append_assoc, List.head?_append_of_ne_nil _ hnil]
      rw [lead, lead, habsolute, hhead]
  rw [components, hlead, hnames]

theorem exists_parent_join (h : isPlainName name = true) (hne : directory ≠ []) :
    exists q, parent? (join directory name) = some q /\ components q = components directory := by
  obtain ⟨hslash, hidle, _⟩ := isPlainName_facts h
  obtain ⟨before, hsegments, hnames, _⟩ := exists_segments_before hslash hne
  obtain ⟨q, hparent, hcomponents⟩ := exists_parent_components hsegments hidle
  refine ⟨q, hparent, ?_⟩
  have hjoin := components_join h hne
  rw [components, hsegments, names_append, names_singleton hidle, List.map_append,
    ← List.append_assoc] at hjoin
  rw [hcomponents]
  exact (List.append_inj' hjoin rfl).left

/-- A name at the end of a path stays there when its start is split off. -/
theorem exists_segments_rest (hsegments : segments p = before ++ [name])
    (hname : isIdle name = false) :
    exists after, segments (splitStart p).2 = after ++ [name] := by
  have hrest : forall {first : List Char} {rest : List Char},
      first :: segments rest = before ++ [name] ->
      exists after, segments rest = after ++ [name] := by
    intro first rest heq
    cases before with
    | nil => exact absurd (List.cons.inj heq).right (segments_ne_nil rest)
    | cons part after => exact ⟨after, (List.cons.inj heq).right⟩
  rcases splitStart_cases p with
    ⟨rest, rfl, hsplit⟩ | ⟨rfl, _⟩ | ⟨rest, rfl, hsplit⟩ | ⟨_, hsplit⟩
  · rw [hsplit]
    rw [segments_slash] at hsegments
    exact hrest hsegments
  · rcases List.append_eq_singleton_iff.mp hsegments.symm with ⟨_, hdot⟩ | ⟨_, hdot⟩
    · cases hdot
      cases hname
    · cases hdot
  · rw [hsplit]
    change segments (['.'] ++ '/' :: rest) = _ at hsegments
    rw [segments_append_slash] at hsegments
    obtain ⟨after, hafter⟩ := hrest hsegments
    exact ⟨[] :: after, by rw [segments_slash, hafter, List.cons_append]⟩
  · rw [hsplit]
    exact ⟨before, hsegments⟩

theorem fileName?_join (h : isPlainName name = true) (directory : Path) :
    fileName? (join directory name) = some name := by
  obtain ⟨_, hidle, hup⟩ := isPlainName_facts h
  obtain ⟨before, hsegments⟩ := exists_segments_join h directory
  obtain ⟨after, hrest⟩ := exists_segments_rest hsegments hidle
  rw [fileName?, hrest, dropIdleEnd_concat hidle, List.reverse_append]
  exact if_neg hup

end Path
end SchemaTypes
