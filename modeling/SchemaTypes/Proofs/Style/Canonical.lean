import SchemaTypes.Proofs.Style.Declarations
import SchemaTypes.Proofs.TypeScript.Requoting
import SchemaTypes.Proofs.TypeScript.Stacking

/-!
# Outlines with requoted literals

Requoting the literals of an outline changes no more of its shape than the quotes.  The
shape of an outline with requoted literals is that of canonical statements, so that what
is printed of it is read as the same outline.
-/

namespace SchemaTypes
namespace TypeScript

/-!
## Types and keys
-/

namespace PropertyName

variable {n : PropertyName}

theorem isCanonical_requoted (h : n.isKey = true) : n.requoted.isCanonical = true := by
  rw [isKey] at h
  rw [requoted, isCanonical]
  split at h <;> rename_i hquoted
  · simp [hquoted, Quoted.isLiteral_requote h, Quoted.head_requote h]
  · simp [hquoted, h]

theorem isAbstract_requoted (h : Member.isAbstract [.name n] = false) (rest : List MemberPiece) :
    Member.isAbstract (.name n.requoted :: rest) = false := by
  rw [requoted]
  split
  · rfl
  · exact h

end PropertyName

namespace TypeTree

theorem isBarred_of_canonical {t : TypeTree} (h : t.Canonical) (hunion : t.isUnion = true) :
    t.IsBarred := by
  cases h with
  | union hmember h => exact ⟨_, _, rfl, fun u hu => ⟨hmember u hu, h u hu⟩⟩
  | _ => cases hunion

theorem isMember_requoted {t : TypeTree} (h : t.isPrimary = true) : t.requoted.isMember = true := by
  refine isMember_of_isOperand (isOperand_of_isPrimary ?_)
  rw [isPrimary_requoted, h]

theorem Spelled.canonical {t : TypeTree} {ls : List Lexeme} (h : Spelled t ls) :
    t.requoted.Canonical := by
  induction h with
  | word b hs => exact .text (.inl hs)
  | string b hs => exact .string (Quoted.isLiteral_requote hs) (Quoted.head_requote hs)
  | array b' hprimary _ _ ih => exact .array (by rw [isPrimary_requoted, hprimary]) ih
  | parenthesized b b' h ih =>
      exact .parenthesized (by rw [isConstant_requoted, h.not_isConstant]) ih
  | @generic name first ls more b b' b'' hname hfirst hmore ihfirst ihmore =>
      rw [requoted, requotedAll_eq_map, List.map_cons, List.map_map]
      refine .generic hname ?_ ?_
      · intro u hu
        rcases List.mem_cons.mp hu with rfl | hmem
        · rw [isConstant_requoted, hfirst.not_isConstant]
        · obtain ⟨p, hp, rfl⟩ := List.mem_map.mp hmem
          exact (isConstant_requoted _).trans (hmore p hp).not_isConstant
      · intro u hu
        rcases List.mem_cons.mp hu with rfl | hmem
        · exact ihfirst
        · obtain ⟨p, hp, rfl⟩ := List.mem_map.mp hmem
          exact ihmore p hp
  | @union first lead ls more hlead hne hprimary hfirst hprimaries hmore ihfirst ihmore =>
      have hmember : forall u, u ∈ first.requoted :: more.map (requoted ∘ Further.value) ->
          u.isMember = true /\ u.Canonical := by
        intro u hu
        rcases List.mem_cons.mp hu with rfl | hmem
        · exact ⟨isMember_requoted hprimary, ihfirst⟩
        · obtain ⟨p, hp, rfl⟩ := List.mem_map.mp hmem
          exact ⟨isMember_requoted (hprimaries p hp), ihmore p hp⟩
      rw [requoted, requotedAll_eq_map, List.map_cons, List.map_map]
      cases more with
      | nil => exact absurd rfl hne
      | cons p ps => exact .union (fun u hu => (hmember u hu).left) fun u hu => (hmember u hu).right

end TypeTree

/-!
## Members
-/

namespace Signature

def requoted (s : Signature) : Signature :=
  { s with key := s.key.requoted, type := s.type.requoted }

theorem member_requoted (s : Signature) : s.requoted.member = s.member.requoted := by
  obtain ⟨readonly, key, optional, type⟩ := s
  cases readonly <;> cases optional <;> rfl

theorem canonical_tail {type : TypeTree} {optional : Bool} {ls : List Lexeme}
    (h : SpelledTail type optional ls) :
    forall t, some type.requoted = some t -> t.Canonical /\ t.isConstant = false := by
  have htype : exists ls, type.Spelled ls := by
    induction h with
    | required _ h => exact ⟨_, h⟩
    | optional _ _ ih => exact ih
  obtain ⟨ls, htype⟩ := htype
  rintro t ⟨⟩
  exact ⟨htype.canonical, by rw [TypeTree.isConstant_requoted, htype.not_isConstant]⟩

theorem Spelled.canonical {s : Signature} {ls : List Lexeme} (h : s.Spelled ls) :
    s.requoted.member.Canonical := by
  cases h with
  | @plain b key optional type ls hkey habstract h =>
      exact .property (.name (PropertyName.isCanonical_requoted hkey) optional (canonical_tail h) _)
        (PropertyName.isAbstract_requoted habstract _)
  | @readonly b b' key optional type ls hb hkey h =>
      refine .property ?_ rfl
      refine .passed (by decide) (.passed (by decide) (.passed (by decide) (.taken (by decide) ?_)))
      exact .name (PropertyName.isCanonical_requoted hkey) optional (canonical_tail h) _

theorem SpelledAll.canonical {ss : List (Bool × Signature)} {ls : List Lexeme}
    (h : SpelledAll ss ls) {s : Bool × Signature} (hs : s ∈ ss) : s.2.requoted.member.Canonical := by
  cases h with
  | nil => cases hs
  | cons hfirst hmore =>
      rcases List.mem_cons.mp hs with rfl | hmem
      · exact hfirst.canonical
      · obtain ⟨n, hn, rfl⟩ := List.mem_map.mp hmem
        exact (hmore n hn).canonical

end Signature

/-!
## Objects
-/

namespace Pairing

def requoted (p : Pairing) : Pairing :=
  ⟨p.key.requoted, Quoted.requote p.literal⟩

theorem value_requoted (frozen : Bool) (ps : List Pairing) :
    value frozen (ps.map requoted) = (value frozen ps).requoted := by
  have hentries : Entry.requotedAll (ps.map entry) = (ps.map requoted).map entry := by
    induction ps with
    | nil => rfl
    | cons p ps ih =>
        rw [List.map_cons, Entry.requotedAll, ih]
        rfl
  cases frozen <;> simp [value, Expression.requoted, hentries, TypeTree.requoted]

theorem SpelledAll.canonical {ps : List Pairing} {ls : List Lexeme} (h : SpelledAll ps ls) :
    (Expression.object (ps.map requoted |>.map entry)).Canonical := by
  have hall : forall p, p ∈ ps -> p.key.isKey = true /\ isLiteral p.literal = true := by
    have hmk : forall {p ls}, Spelled p ls -> p.key.isKey = true /\ isLiteral p.literal = true := by
      intro p ls h
      cases h with
      | mk _ _ _ hkey hliteral => exact ⟨hkey, hliteral⟩
    intro p hp
    cases h with
    | nil => cases hp
    | cons hfirst hmore _ =>
        rcases List.mem_cons.mp hp with rfl | hmem
        · exact hmk hfirst
        · obtain ⟨q, hq, rfl⟩ := List.mem_map.mp hmem
          exact hmk (hmore q hq)
  refine .object ?_ ?_
  · intro e he
    simp only [List.map_map, List.mem_map] at he
    obtain ⟨p, hp, rfl⟩ := he
    exact PropertyName.isCanonical_requoted (hall p hp).left
  · intro key literal hmem
    simp only [List.map_map, List.mem_map] at hmem
    obtain ⟨p, hp, heq⟩ := hmem
    cases heq
    exact .string (Quoted.isLiteral_requote (hall p hp).right) (Quoted.head_requote (hall p hp).right)

theorem SpelledValue.canonical {frozen : Bool} {ps : List Pairing} {ls : List Lexeme}
    (h : SpelledValue frozen ps ls) : (value frozen (ps.map requoted)).Canonical := by
  cases h with
  | object b b' h => exact h.canonical
  | frozen _ _ h =>
      cases h with
      | object b b' h => exact .ascription h.canonical .constant

end Pairing

/-!
## Declarations
-/

namespace Body

def requoted : Body -> Body
  | interface members => interface (members.map fun s => (s.1, s.2.requoted))
  | typeAlias value => typeAlias value.requoted
  | object frozen entries => object frozen (entries.map Pairing.requoted)

end Body

namespace Outline

def requoted (o : Outline) : Outline :=
  { o with body := o.body.requoted }

theorem shape_requoted {s : Statement} {o : Outline} (h : s.shape = o.shape) :
    s.requoted.shape = o.requoted.shape := by
  obtain ⟨exported, name, body⟩ := o
  cases body with
  | typeAlias value =>
      cases s <;> cases h
      rfl
  | object frozen entries =>
      have hvalue := Pairing.value_requoted frozen entries
      cases s <;> cases h
      simp [Statement.requoted, Statement.shape, Declarator.requoted, shape, requoted, Body.requoted,
        Body.shape, hvalue]
  | interface members =>
      obtain ⟨items, rfl, harrange⟩ := Statement.exists_interface_of_shape h
      simp [Statement.requoted, Statement.shape, Item.arrange_map, harrange, shape, requoted,
        Body.requoted, Body.shape, Piece.map, Signature.member_requoted]

theorem isPlain_export? (exported : Bool) : Statement.isPlain (export? exported) = true := by
  cases exported <;> rfl

/-- A statement with the shape of an outline that is spelled is canonical, once its literals
are requoted. -/
theorem Spelled.canonical {o : Outline} {ls : List Lexeme} (h : o.Spelled ls) {s : Statement}
    (hs : s.shape = o.requoted.shape) (printWidth : Nat) : s.Canonical printWidth := by
  have hbody : exists ls, o.body.Spelled o.name ls := by
    cases h with
    | plain _ _ h => exact ⟨_, h⟩
    | exported _ _ _ h => exact ⟨_, h⟩
  obtain ⟨exported, name, body⟩ := o
  obtain ⟨ls, hbody⟩ := hbody
  cases hbody with
  | typeAlias b b' hname htype =>
      cases s <;> cases hs
      refine .declared (.typeAlias (isPlain_export? _) hname Header.isKept_nil
        (fun _ => htype.canonical) (fun hbroken => ?_))
      rw [Statement.isBroken, Bool.and_eq_true] at hbroken
      exact TypeTree.isBarred_of_canonical htype.canonical hbroken.left
  | object b b' hname hvalue =>
      cases s <;> cases hs
      refine .declared (.lexical (isPlain_export? _) (.inl rfl) (List.cons_ne_nil _ _) ?_)
      intro d hd
      rw [List.mem_singleton] at hd
      subst hd
      refine ⟨hname, rfl, by simp, ?_⟩
      rintro e ⟨⟩
      exact hvalue.canonical
  | interface b b' hname hmembers =>
      obtain ⟨items, rfl, harrange⟩ := Statement.exists_interface_of_shape hs
      rw [List.map_map] at harrange
      refine .declared (.interface (isPlain_export? _) hname Header.isKept_nil ?_ ?_)
      · intro m hm
        rw [harrange, Function.comp_def, Piece.nodes_map_nodes, List.mem_map] at hm
        obtain ⟨member, hmember, rfl⟩ := hm
        exact hmembers.canonical hmember
      · refine Piece.areSound_of_nodes ?_
        intro p hp
        rw [harrange, List.mem_map] at hp
        obtain ⟨member, -, rfl⟩ := hp
        exact ⟨_, _, rfl⟩

end Outline

end TypeScript
end SchemaTypes
