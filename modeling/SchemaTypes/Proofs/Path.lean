import Mathlib.Data.List.DropRight
import SchemaTypes.Path

/-!
# The names on a path

A path with the name of something at its end has a parent, which ends before that name
and leads through the same names up to it.  The directories on the way to a path name
one directory more each, and each of them is a start of the path.
-/

namespace SchemaTypes
namespace Path

/-!
## Segments
-/

theorem segments_cons {c : Char} (h : c ≠ '/') (s : List Char) :
    exists first more, segments s = first :: more /\ segments (c :: s) = (c :: first) :: more := by
  have hne : segments s ≠ [] := by
    cases s with
    | nil => simp [segments]
    | cons d rest =>
        rw [segments]
        split
        · simp
        · split <;> simp
  obtain ⟨first, more, hsegments⟩ := List.exists_cons_of_ne_nil hne
  exact ⟨first, more, hsegments, by rw [segments, if_neg h, hsegments]⟩

theorem segments_slash (s : List Char) : segments ('/' :: s) = [] :: segments s :=
  if_pos rfl

theorem segments_append_slash (s t : List Char) :
    segments (s ++ '/' :: t) = segments s ++ segments t := by
  induction s with
  | nil => exact segments_slash t
  | cons c rest ih =>
      by_cases hc : c = '/'
      · rw [hc, List.cons_append, segments_slash, segments_slash, ih, List.cons_append]
      · obtain ⟨first, more, hrest, hcons⟩ := segments_cons hc rest
        obtain ⟨first', more', hrest', hcons'⟩ := segments_cons hc (rest ++ '/' :: t)
        rw [ih, hrest, List.cons_append] at hrest'
        cases hrest'
        rw [List.cons_append, hcons', hcons, List.cons_append]

theorem segments_of_plain {s : List Char} (h : '/' ∉ s) : segments s = [s] := by
  induction s with
  | nil => rfl
  | cons c rest ih =>
      rw [List.mem_cons, not_or] at h
      obtain ⟨first, more, hrest, hcons⟩ := segments_cons (Ne.symm h.left) rest
      rw [ih h.right] at hrest
      cases hrest
      exact hcons

theorem segments_ne_nil (s : List Char) : segments s ≠ [] := by
  cases s with
  | nil => exact List.cons_ne_nil _ _
  | cons c rest =>
      by_cases hc : c = '/'
      · simp [hc, segments_slash]
      · obtain ⟨first, more, _, hcons⟩ := segments_cons hc rest
        simp [hcons]

theorem slash_not_mem_segments {s part : List Char} (h : part ∈ segments s) : '/' ∉ part := by
  induction s generalizing part with
  | nil =>
      cases List.mem_singleton.mp h
      exact List.not_mem_nil
  | cons c rest ih =>
      by_cases hc : c = '/'
      · rw [hc, segments_slash, List.mem_cons] at h
        cases h with
        | inl hempty => simp [hempty]
        | inr hrest => exact ih hrest
      · obtain ⟨first, more, hrest, hcons⟩ := segments_cons hc rest
        rw [hrest] at ih
        rw [hcons, List.mem_cons] at h
        cases h with
        | inl hfirst =>
            rw [hfirst, List.mem_cons, not_or]
            exact ⟨Ne.symm hc, ih List.mem_cons_self⟩
        | inr hmore => exact ih (List.mem_cons_of_mem _ hmore)

theorem ofSegments_cons {s : List Char} {rest : List (List Char)} (h : rest ≠ []) :
    ofSegments (s :: rest) = s ++ '/' :: ofSegments rest := by
  cases rest with
  | nil => exact absurd rfl h
  | cons t more => rfl

theorem ofSegments_segments (s : List Char) : ofSegments (segments s) = s := by
  induction s with
  | nil => rfl
  | cons c rest ih =>
      by_cases hc : c = '/'
      · rw [hc, segments_slash, ofSegments_cons (segments_ne_nil rest), ih, List.nil_append]
      · obtain ⟨first, more, hrest, hcons⟩ := segments_cons hc rest
        rw [hcons]
        rw [hrest] at ih
        rw [← ih]
        cases more <;> rfl

theorem segments_ofSegments {parts : List (List Char)} (hne : parts ≠ [])
    (h : forall part, part ∈ parts -> '/' ∉ part) : segments (ofSegments parts) = parts := by
  induction parts with
  | nil => exact absurd rfl hne
  | cons part rest ih =>
      have hpart := segments_of_plain (h part List.mem_cons_self)
      cases rest with
      | nil => exact hpart
      | cons next more =>
          have hrest := ih (by simp) fun t ht => h t (List.mem_cons_of_mem _ ht)
          rw [ofSegments_cons (by simp), segments_append_slash, hpart, hrest]
          rfl

theorem ofSegments_isPrefix {parts more : List (List Char)} :
    ofSegments parts <+: ofSegments (parts ++ more) := by
  induction parts with
  | nil => exact List.nil_prefix
  | cons part rest ih =>
      cases rest with
      | nil =>
          cases more with
          | nil => exact List.prefix_rfl
          | cons t others => exact List.prefix_append part _
      | cons next others =>
          rw [List.cons_append, ofSegments_cons (List.cons_ne_nil next others),
            ofSegments_cons (List.append_ne_nil_of_left_ne_nil (List.cons_ne_nil next others) more)]
          exact (List.prefix_append_right_inj part).mpr ((List.prefix_cons_inj '/').mpr ih)

/-!
## Names
-/

def names (parts : List (List Char)) : List (List Char) :=
  parts.filter fun part => !isIdle part

theorem names_append (parts more : List (List Char)) :
    names (parts ++ more) = names parts ++ names more :=
  List.filter_append parts more

theorem names_singleton {name : List Char} (h : isIdle name = false) : names [name] = [name] := by
  simp [names, h]

theorem names_cons_idle {part : List Char} (h : isIdle part = true) (rest : List (List Char)) :
    names (part :: rest) = names rest := by
  simp [names, h]

theorem isIdle_of_mem_names (parts : List (List Char)) (part : List Char)
    (h : part ∈ names parts) : isIdle part = false := by
  simpa using (List.mem_filter.mp h).right

theorem dropIdleEnd_eq (parts : List (List Char)) : dropIdleEnd parts = parts.rdropWhile isIdle :=
  rfl

theorem dropIdleEnd_concat {name : List Char} (h : isIdle name = false)
    (before : List (List Char)) : dropIdleEnd (before ++ [name]) = before ++ [name] := by
  rw [dropIdleEnd_eq, List.rdropWhile_concat, if_neg (by simp [h])]

theorem names_dropIdleEnd (parts : List (List Char)) : names (dropIdleEnd parts) = names parts := by
  rw [dropIdleEnd_eq]
  induction parts using List.reverseRecOn with
  | nil => rfl
  | append_singleton before last ih =>
      rw [List.rdropWhile_concat]
      split
      · rename_i hidle
        rw [ih, names_append, names_cons_idle hidle]
        exact (List.append_nil _).symm
      · rfl

theorem dropIdleEnd_cons_idle {part : List Char} (h : isIdle part = true)
    (rest : List (List Char)) :
    dropIdleEnd (part :: rest) =
      if dropIdleEnd rest = [] then [] else part :: dropIdleEnd rest := by
  rw [dropIdleEnd_eq, dropIdleEnd_eq]
  induction rest using List.reverseRecOn with
  | nil => simp [List.rdropWhile, h]
  | append_singleton before last ih =>
      rw [← List.cons_append, List.rdropWhile_concat, List.rdropWhile_concat]
      split
      · exact ih
      · simp

theorem dropIdleEnd_cases (parts : List (List Char)) :
    dropIdleEnd parts = [] \/
      exists before name, dropIdleEnd parts = before ++ [name] /\ isIdle name = false := by
  cases List.eq_nil_or_concat (dropIdleEnd parts) with
  | inl hnil => exact .inl hnil
  | inr hconcat =>
      obtain ⟨before, name, hparts⟩ := hconcat
      rw [List.concat_eq_append] at hparts
      have hlast := List.rdropWhile_last_not isIdle parts (by simp [← dropIdleEnd_eq, hparts])
      simp only [← dropIdleEnd_eq, hparts, List.getLast_append_singleton] at hlast
      exact .inr ⟨before, name, hparts, by simpa using hlast⟩

/-!
## Parents
-/

inductive IsTrimmed : Path -> Prop
  | empty : IsTrimmed []
  | dot : IsTrimmed ['.']
  | top : IsTrimmed ['/']
  | named {p : Path} {before : List (List Char)} {name : List Char}
      (hsegments : segments p = before ++ [name]) (hname : isIdle name = false) : IsTrimmed p

theorem splitStart_cases (p : Path) :
    (exists rest, p = '/' :: rest /\ splitStart p = (['/'], rest)) \/
    (p = ['.'] /\ splitStart p = (['.'], [])) \/
    (exists rest, p = '.' :: '/' :: rest /\ splitStart p = (['.'], '/' :: rest)) \/
    (isAbsolute p = false /\ splitStart p = ([], p)) := by
  unfold splitStart
  split
  · exact .inl ⟨_, rfl, rfl⟩
  · exact .inr (.inl ⟨rfl, rfl⟩)
  · exact .inr (.inr (.inl ⟨_, rfl, rfl⟩))
  · rename_i hslash _ _
    refine .inr (.inr (.inr ⟨?_, rfl⟩))
    unfold isAbsolute
    split
    · exact absurd rfl (hslash _)
    · rfl

variable {p : Path} {before : List (List Char)} {name : List Char}

theorem ne_nil_of_named (hsegments : segments p = before ++ [name]) (hname : isIdle name = false) :
    p ≠ [] := by
  rintro rfl
  have hlast : [] = name := by
    have hboth := congrArg List.getLast? hsegments
    simpa [segments] using hboth
  rw [← hlast] at hname
  cases hname

/-- Segments that are kept behind one that names nothing stand behind it. -/
theorem exists_of_dropIdleEnd_cons {part : List Char} {rest : List (List Char)}
    (hpart : isIdle part = true) (hkept : dropIdleEnd (part :: rest) = before ++ [name])
    (hname : isIdle name = false) :
    exists after, before = part :: after /\ dropIdleEnd rest = after ++ [name] := by
  rw [dropIdleEnd_cons_idle hpart] at hkept
  split at hkept
  · simp at hkept
  · cases before with
    | nil =>
        rw [(List.cons.inj hkept).left, hname] at hpart
        cases hpart
    | cons first after =>
        obtain ⟨hfirst, hafter⟩ := List.cons.inj hkept
        exact ⟨after, by rw [hfirst], hafter⟩

/-- The parent of a path whose last step is a name has the segments before it, or is no more
than the start of the path. -/
theorem parent?_of_kept (hkept : dropIdleEnd (segments p) = before ++ [name])
    (hname : isIdle name = false) :
    parent? p = some (if dropIdleEnd before = [] then (splitStart p).1
      else ofSegments (dropIdleEnd before)) := by
  have hlast : forall parts : List (List Char),
      (parts ++ [name]).reverse = name :: parts.reverse := by
    intro parts
    rw [List.reverse_append]
    rfl
  unfold parent?
  rcases splitStart_cases p with ⟨rest, hp, hsplit⟩ | ⟨hp, _⟩ | ⟨rest, hp, hsplit⟩ | ⟨_, hsplit⟩
  · rw [hsplit]
    dsimp only
    rw [hp, segments_slash] at hkept
    obtain ⟨after, hbefore, hrest⟩ := exists_of_dropIdleEnd_cons rfl hkept hname
    rw [hrest, hlast, hbefore, dropIdleEnd_cons_idle rfl]
    dsimp only
    rw [List.reverse_reverse]
    by_cases hnil : dropIdleEnd after = []
    · simp [hnil, ofSegments]
    · simp [hnil, ofSegments_cons hnil]
  · rw [hp] at hkept
    exact absurd hkept (by simp [show dropIdleEnd (segments ['.']) = [] by decide])
  · rw [hsplit]
    dsimp only
    rw [hp, show '.' :: '/' :: rest = ['.'] ++ '/' :: rest from rfl, segments_append_slash] at hkept
    obtain ⟨after, hbefore, hrest⟩ := exists_of_dropIdleEnd_cons (by decide) hkept hname
    change dropIdleEnd (segments rest) = after ++ [name] at hrest
    rw [segments_slash, dropIdleEnd_cons_idle rfl, if_neg (by simp [hrest]), hrest,
      ← List.cons_append, hlast, hbefore, dropIdleEnd_cons_idle (by decide)]
    dsimp only
    rw [List.reverse_reverse, dropIdleEnd_cons_idle rfl]
    by_cases hnil : dropIdleEnd after = []
    · simp [hnil, ofSegments]
    · simp [hnil, ofSegments_cons hnil]
  · rw [hsplit]
    dsimp only
    rw [hkept, hlast]
    dsimp only
    rw [List.reverse_reverse]
    by_cases hnil : dropIdleEnd before = []
    · simp [hnil, ofSegments]
    · simp [hnil]

theorem parent?_of_named (hsegments : segments p = before ++ [name])
    (hname : isIdle name = false) :
    parent? p = some (if dropIdleEnd before = [] then (splitStart p).1
      else ofSegments (dropIdleEnd before)) :=
  parent?_of_kept (by rw [hsegments, dropIdleEnd_concat hname]) hname

theorem start_isPrefix (p : Path) : (splitStart p).1 <+: p := by
  rcases splitStart_cases p with ⟨rest, hp, hsplit⟩ | ⟨hp, hsplit⟩ | ⟨rest, hp, hsplit⟩ | ⟨_, hsplit⟩
  · rw [hsplit, hp]
    exact List.prefix_append ['/'] rest
  · subst hp
    exact hsplit ▸ List.prefix_rfl
  · rw [hsplit, hp]
    exact List.prefix_append ['.'] _
  · rw [hsplit]
    exact List.nil_prefix

theorem isAbsolute_start (p : Path) : isAbsolute (splitStart p).1 = isAbsolute p := by
  rcases splitStart_cases p with ⟨rest, hp, hsplit⟩ | ⟨hp, hsplit⟩ | ⟨rest, hp, hsplit⟩ | ⟨h, hsplit⟩
  · rw [hsplit, hp]
    rfl
  · rw [hsplit, hp]
  · rw [hsplit, hp]
    rfl
  · rw [hsplit, h]
    rfl

theorem start_cases (p : Path) :
    (splitStart p).1 = [] \/ (splitStart p).1 = ['.'] \/ (splitStart p).1 = ['/'] := by
  rcases splitStart_cases p with ⟨_, _, hsplit⟩ | ⟨_, hsplit⟩ | ⟨_, _, hsplit⟩ | ⟨_, hsplit⟩ <;>
    simp [hsplit]

theorem isTrimmed_start (p : Path) : IsTrimmed (splitStart p).1 := by
  rcases start_cases p with hstart | hstart | hstart
  · rw [hstart]
    exact .empty
  · rw [hstart]
    exact .dot
  · rw [hstart]
    exact .top

theorem names_start (p : Path) : names (segments (splitStart p).1) = [] := by
  rcases start_cases p with hstart | hstart | hstart <;> rw [hstart] <;> decide

theorem isAbsolute_of_isPrefix {q : Path} (h : q <+: p) (hne : q ≠ []) :
    isAbsolute q = isAbsolute p := by
  obtain ⟨rest, hp⟩ := h
  obtain ⟨c, more, rfl⟩ := List.exists_cons_of_ne_nil hne
  rw [← hp, List.cons_append]
  unfold isAbsolute
  split
  · rename_i heq
    cases heq
    rfl
  · rename_i hslash
    split
    · rename_i heq
      cases heq
      exact absurd rfl (hslash _)
    · rfl

/-- The parent of a path whose last step is a name leads through the names before it. -/
theorem exists_parent_of_kept (hkept : dropIdleEnd (segments p) = before ++ [name])
    (hname : isIdle name = false) :
    exists q, parent? p = some q /\ q <+: p /\ q ≠ p /\ isAbsolute q = isAbsolute p /\
      names (segments q) = names before /\ IsTrimmed q := by
  have hnames : names (segments p) = names before ++ [name] := by
    rw [← names_dropIdleEnd, hkept, names_append, names_singleton hname]
  obtain ⟨idle, hidle⟩ : dropIdleEnd (segments p) <+: segments p := List.rdropWhile_prefix isIdle _
  refine ⟨_, parent?_of_kept hkept hname, ?_⟩
  suffices hq : forall q : Path, q <+: p -> isAbsolute q = isAbsolute p ->
      names (segments q) = names before -> IsTrimmed q ->
      q <+: p /\ q ≠ p /\ isAbsolute q = isAbsolute p /\
        names (segments q) = names before /\ IsTrimmed q by
    rcases dropIdleEnd_cases before with hnil | ⟨before', name', hbefore, hname'⟩
    · rw [if_pos hnil]
      refine hq _ (start_isPrefix p) (isAbsolute_start p) ?_ (isTrimmed_start p)
      rw [names_start, ← names_dropIdleEnd before, hnil]
      rfl
    · rw [if_neg (by simp [hbefore])]
      obtain ⟨cut, hcut⟩ : dropIdleEnd before <+: before := List.rdropWhile_prefix isIdle before
      have hp : segments p = dropIdleEnd before ++ (cut ++ [name] ++ idle) := by
        rw [← List.append_assoc, ← List.append_assoc, hcut, ← hkept, hidle]
      have hinit : ofSegments (dropIdleEnd before) <+: p := by
        rw [← ofSegments_segments p, hp]
        exact ofSegments_isPrefix
      have hparts : segments (ofSegments (dropIdleEnd before)) = dropIdleEnd before := by
        refine segments_ofSegments (by simp [hbefore]) fun part hpart => ?_
        refine slash_not_mem_segments (s := p) ?_
        rw [hp]
        exact List.mem_append_left _ hpart
      have hne : ofSegments (dropIdleEnd before) ≠ [] := by
        intro hnil
        rw [hnil, hbefore] at hparts
        have hsingle : before' ++ [name'] = [[]] := hparts.symm
        have hlast : name' = [] := by
          have := congrArg List.getLast? hsingle
          simpa using this
        rw [hlast] at hname'
        cases hname'
      refine hq _ hinit (isAbsolute_of_isPrefix hinit hne) ?_
        (.named (hparts.trans hbefore) hname')
      rw [hparts, names_dropIdleEnd]
  intro q hinit habsolute hq htrimmed
  refine ⟨hinit, ?_, habsolute, hq, htrimmed⟩
  rintro rfl
  rw [hnames] at hq
  simpa using congrArg List.length hq

/-- The parent of a path that ends in a name leads through the names before it. -/
theorem exists_parent (hsegments : segments p = before ++ [name]) (hname : isIdle name = false) :
    exists q, parent? p = some q /\ q <+: p /\ q ≠ p /\ isAbsolute q = isAbsolute p /\
      names (segments q) = names before /\ IsTrimmed q :=
  exists_parent_of_kept (by rw [hsegments, dropIdleEnd_concat hname]) hname

/-- A path without a step in it has no parent, unless it starts with a dot. -/
theorem parent?_of_idle (hkept : dropIdleEnd (segments p) = []) :
    parent? p = none \/ parent? p = some [] := by
  have hrest : forall (part rest : List Char), isIdle part = true ->
      dropIdleEnd (part :: segments rest) = [] -> dropIdleEnd (segments rest) = [] := by
    intro part rest hpart hnil
    rw [dropIdleEnd_cons_idle hpart] at hnil
    split at hnil
    · assumption
    · cases hnil
  unfold parent?
  rcases splitStart_cases p with ⟨rest, hp, hsplit⟩ | ⟨_, hsplit⟩ | ⟨rest, hp, hsplit⟩ | ⟨_, hsplit⟩
  · rw [hp, segments_slash] at hkept
    rw [hsplit]
    dsimp only
    rw [hrest [] rest rfl hkept]
    exact .inl rfl
  · rw [hsplit]
    exact .inr rfl
  · rw [hp, show '.' :: '/' :: rest = ['.'] ++ '/' :: rest from rfl, segments_append_slash] at hkept
    rw [hsplit]
    dsimp only
    rw [segments_slash, dropIdleEnd_cons_idle rfl, if_pos (hrest ['.'] rest rfl hkept)]
    exact .inr rfl
  · rw [hsplit]
    dsimp only
    rw [hkept]
    exact .inl rfl

theorem parent?_facts {q : Path} (h : parent? p = some q) :
    q <+: p /\ IsTrimmed q /\ (q ≠ [] -> isAbsolute q = isAbsolute p) := by
  rcases dropIdleEnd_cases (segments p) with hidle | ⟨before, name, hkept, hname⟩
  · rcases parent?_of_idle hidle with hnone | hempty
    · rw [hnone] at h
      cases h
    · rw [hempty] at h
      cases h
      exact ⟨List.nil_prefix, .empty, fun hne => absurd rfl hne⟩
  · obtain ⟨around, hparent, hinit, _, habsolute, _, htrimmed⟩ := exists_parent_of_kept hkept hname
    rw [hparent] at h
    cases h
    exact ⟨hinit, htrimmed, fun _ => habsolute⟩

/-!
## Chains
-/

/-- Directories with one name less each, the innermost first. -/
inductive IsChain (absolute : Bool) : List (List Char) -> List Path -> Prop
  | empty : IsChain absolute [] []
  | dot (habsolute : absolute = false) : IsChain absolute [] [['.']]
  | named {p : Path} {before : List (List Char)} {name : List Char} {around : List Path}
      (habsolute : isAbsolute p = absolute) (hsegments : segments p = before ++ [name])
      (hname : isIdle name = false) (haround : IsChain absolute (names before) around) :
      IsChain absolute (names before ++ [name]) (p :: around)

theorem isChain_chainFrom {steps : Nat} (hsteps : p.length < steps) (h : IsTrimmed p) :
    IsChain (isAbsolute p) (names (segments p)) (chainFrom steps p) := by
  induction steps generalizing p with
  | zero => exact absurd hsteps (Nat.not_lt_zero _)
  | succ steps ih =>
      cases h with
      | empty => exact .empty
      | dot =>
          have hchain : chainFrom (steps + 1) ['.'] = [['.']] := by
            cases steps <;> rfl
          rw [hchain]
          exact .dot rfl
      | top => exact .empty
      | named hsegments hname =>
          rename_i before name
          obtain ⟨q, hparent, hinit, hne, habsolute, hnames, htrimmed⟩ :=
            exists_parent hsegments hname
          have hshorter : q.length < p.length :=
            Nat.lt_of_le_of_ne hinit.length_le fun h => hne (hinit.eq_of_length h)
          have hchain := ih (p := q) (by omega) htrimmed
          have hempty : p.isEmpty = false := by
            cases p with
            | nil => exact absurd hshorter (Nat.not_lt_zero _)
            | cons c rest => rfl
          rw [chainFrom, hempty, hparent, hsegments, names_append, names_singleton hname]
          rw [hnames, habsolute] at hchain
          exact .named rfl hsegments hname hchain

theorem isChain_chain (h : IsTrimmed p) : IsChain (isAbsolute p) (names (segments p)) (chain p) :=
  isChain_chainFrom (Nat.lt_succ_self _) h

theorem isPrefix_of_mem_chainFrom {steps : Nat} {q : Path} (h : IsTrimmed p)
    (hq : q ∈ chainFrom steps p) : q <+: p := by
  induction steps generalizing p with
  | zero => cases hq
  | succ steps ih =>
      cases h with
      | empty => cases hq
      | dot =>
          have hchain : chainFrom (steps + 1) ['.'] = [['.']] := by
            cases steps <;> rfl
          rw [hchain, List.mem_singleton] at hq
          exact hq ▸ List.prefix_rfl
      | top => cases hq
      | named hsegments hname =>
          obtain ⟨around, hparent, hinit, _, _, _, htrimmed⟩ := exists_parent hsegments hname
          rw [chainFrom, hparent] at hq
          split at hq
          · cases hq
          · cases List.mem_cons.mp hq with
            | inl heq => exact heq ▸ List.prefix_rfl
            | inr hmem => exact (ih htrimmed hmem).trans hinit

theorem isPrefix_of_mem_chain {q : Path} (h : IsTrimmed p) (hq : q ∈ chain p) : q <+: p :=
  isPrefix_of_mem_chainFrom h hq

/-!
## Files in a directory
-/

theorem isPlainName_facts {name : List Char} (h : isPlainName name = true) :
    '/' ∉ name /\ isIdle name = false /\ name ≠ ['.', '.'] := by
  rw [isPlainName, beq_iff_eq, fileName?] at h
  rcases dropIdleEnd_cases (segments (splitStart name).2) with hnil | ⟨before, last, hkept, hlast⟩
  · rw [hnil] at h
    cases h
  · have hslash : '/' ∉ last := by
      refine slash_not_mem_segments (s := (splitStart name).2) ?_
      have hkeeps := List.IsPrefix.subset ( List.rdropWhile_prefix isIdle (segments (splitStart name).2))
      rw [← dropIdleEnd_eq, hkept] at hkeeps
      exact hkeeps (by simp)
    rw [hkept, List.reverse_append] at h
    change (if last = ['.', '.'] then none else some last) = some name at h
    split at h
    · cases h
    · rename_i hup
      cases h
      exact ⟨hslash, hlast, hup⟩

theorem exists_segments_join {name : List Char} (h : isPlainName name = true) (directory : Path) :
    exists before, segments (join directory name) = before ++ [name] := by
  obtain ⟨hslash, _, _⟩ := isPlainName_facts h
  have hplain := segments_of_plain hslash
  have habsolute : isAbsolute name = false := by
    cases name with
    | nil => rfl
    | cons c rest =>
        unfold isAbsolute
        split
        · rename_i heq
          cases heq
          simp at hslash
        · rfl
  rw [join, habsolute]
  cases List.eq_nil_or_concat directory with
  | inl hnil =>
      rw [hnil]
      exact ⟨[], hplain⟩
  | inr hconcat =>
      obtain ⟨start, last, hdirectory⟩ := hconcat
      rw [List.concat_eq_append] at hdirectory
      by_cases hlast : last = '/'
      · refine ⟨segments start, ?_⟩
        rw [hdirectory, hlast]
        simp only [List.getLast?_append, List.getLast?_singleton, Option.some_or,
          Bool.false_eq_true, if_false, List.append_assoc, List.singleton_append]
        rw [segments_append_slash, hplain]
      · refine ⟨segments directory, ?_⟩
        have hgetLast : directory.getLast? = some last := by
          simp [hdirectory]
        rw [hgetLast]
        simp [segments_append_slash, hplain]

end Path
end SchemaTypes
