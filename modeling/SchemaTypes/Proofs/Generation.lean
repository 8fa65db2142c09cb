import SchemaTypes.Generation
import SchemaTypes.Proofs.Json.OneLine
import SchemaTypes.Proofs.Steps

/-!
# Generations and their events

What is generated depends on the format and on the datamodel, and it is written under
the path of the settings.  The events on the way tell names and paths as they are, line
feeds included; nothing else that they tell takes more than a line.
-/

namespace SchemaTypes

variable {σ : Type}

/-!
## What is generated
-/

namespace Settings

variable {s s' : Settings} {d : Datamodel} {g : Generated}

theorem path_generate [TypeScript.Recovery] (h : s.generate d = .ok g) : g.path = s.outputPath := by
  unfold generate at h
  split at h
  · cases h
  · split at h
    · cases h
    · cases h
      rfl

theorem generate_of_format [TypeScript.Recovery] (h : s.generate d = .ok g) (hformat : s'.format = s.format) :
    s'.generate d = .ok { g with path := s'.outputPath } := by
  unfold generate at h ⊢
  rw [hformat]
  split at h
  · cases h
  · split at h
    · cases h
    · cases h
      rfl

/-!
## Writing
-/

theorem run_write_output [TypeScript.Recovery] (s : Settings) (disk : Disk (StateM σ))
    (keep : Bool) (d : Datamodel) (t : σ) :
    (s.write disk keep d).run t =
      match s.generate d with
      | .error halt => (⟨d.events, .error halt⟩, t)
      | .ok g =>
          match (disk.output keep g.path g.content).run t with
          | (.error e, u) => (⟨d.events, .error (.failure (.write e))⟩, u)
          | (.ok w, u) => (⟨d.events ++ w.events ++ [g.event w], .ok w⟩, u) := by
  unfold write
  cases s.generate d with
  | error e => rfl
  | ok g =>
      simp only [run_step]
      cases (disk.output keep g.path g.content).run t with
      | mk answer u => cases answer <;> rfl

theorem run_write [TypeScript.Recovery] (s : Settings) (disk : Disk (StateM σ)) (d : Datamodel)
    (t : σ) :
    ((s.write disk false d).run t) =
      match s.generate d with
      | .error halt => (⟨d.events, .error halt⟩, t)
      | .ok g =>
          match (disk.writeOutput g.path g.content).run t with
          | (.error e, u) => (⟨d.events, .error (.failure (.write e))⟩, u)
          | (.ok w, u) => (⟨d.events ++ w.events ++ [g.event w], .ok w⟩, u) :=
  run_write_output s disk false d t

end Settings

/-!
## Lines of events
-/

namespace Event

/-- The names of the values that are told just as they were sent. -/
def sentValues : List String :=
  ["method", "error", "error_message", "generator", "key", "model", "field", "name", "path"]

/-- A value holds no line feed unless it is told as it was sent. -/
def IsTold (v : String × List Char) : Prop :=
  '\n' ∉ v.1.toList /\ (v.1 ∉ sentValues -> '\n' ∉ v.2)

/-- Line feeds stand in the values that are told as they were sent, and nowhere else. -/
structure HasPlainFrame (e : Event) : Prop where
  target : '\n' ∉ e.target.toList
  message : '\n' ∉ e.message.toList
  values : forall v, v ∈ e.values -> IsTold v

theorem hasPlainFrame_mk {level : Level} {target message : String}
    {values : List (String × List Char)} (htarget : '\n' ∉ target.toList)
    (hmessage : '\n' ∉ message.toList) (hvalues : forall v, v ∈ values -> IsTold v) :
    HasPlainFrame ⟨level, target, message, values⟩ :=
  ⟨htarget, hmessage, hvalues⟩

theorem isTold_sent {name : String} (s : List Char) (hname : '\n' ∉ name.toList)
    (hsent : name ∈ sentValues) : IsTold (name, s) :=
  ⟨hname, fun h => absurd hsent h⟩

theorem isTold_plain {name : String} {s : List Char} (hname : '\n' ∉ name.toList)
    (hs : '\n' ∉ s) : IsTold (name, s) :=
  ⟨hname, fun _ => hs⟩

theorem newline_not_mem_number (n : Nat) : '\n' ∉ number n :=
  newline_not_mem_toString_nat n

theorem HasPlainFrame.newline_not_mem_text {e : Event} (h : e.HasPlainFrame)
    (hsent : forall v, v ∈ e.values -> v.1 ∈ sentValues -> '\n' ∉ v.2) : '\n' ∉ e.text := by
  have hlevel : '\n' ∉ e.level.name.toList := by
    cases e.level <;> decide
  have hvalues : '\n' ∉ e.values.flatMap valueText := by
    intro hmem
    obtain ⟨v, hv, hfeed⟩ := List.mem_flatMap.mp hmem
    have hname := (h.values v hv).left
    have hvalue : '\n' ∉ v.2 := by
      by_cases hin : v.1 ∈ sentValues
      · exact hsent v hv hin
      · exact (h.values v hv).right hin
    simp [valueText, hname, hvalue] at hfeed
  simp [text, hlevel, h.target, h.message, hvalues]

end Event

open Event

theorem Model.hasPlainFrame_events {m : Model} {e : Event} (h : e ∈ m.events) :
    e.HasPlainFrame := by
  unfold Model.events at h
  cases List.mem_append.mp h with
  | inl hskipped =>
      obtain ⟨f, _, rfl⟩ := List.mem_map.mp hskipped
      have hkind : '\n' ∉ f.kind.name.toList := by
        cases f.kind <;> decide
      refine hasPlainFrame_mk (by decide) (by decide) ?_
      simp only [List.forall_mem_cons]
      exact ⟨isTold_sent _ (by decide) (by decide), isTold_sent _ (by decide) (by decide),
        isTold_plain (by decide) hkind, by simp⟩
  | inr hrendered =>
      cases List.mem_singleton.mp hrendered
      refine hasPlainFrame_mk (by decide) (by decide) ?_
      simp only [List.forall_mem_cons]
      exact ⟨isTold_sent _ (by decide) (by decide),
        isTold_plain (by decide) (newline_not_mem_number _), by simp⟩

theorem Enumeration.hasPlainFrame_event (e : Enumeration) : e.event.HasPlainFrame := by
  refine hasPlainFrame_mk (by decide) (by decide) ?_
  simp only [List.forall_mem_cons]
  exact ⟨isTold_sent _ (by decide) (by decide),
    isTold_plain (by decide) (newline_not_mem_number _), by simp⟩

theorem Datamodel.hasPlainFrame_events {d : Datamodel} {e : Event} (h : e ∈ d.events) :
    e.HasPlainFrame := by
  unfold Datamodel.events at h
  split at h
  · cases h
  · cases List.mem_append.mp h with
    | inl hmodel =>
        obtain ⟨m, _, he⟩ := List.mem_flatMap.mp hmodel
        exact Model.hasPlainFrame_events he
    | inr henum =>
        obtain ⟨declared, _, rfl⟩ := List.mem_map.mp henum
        exact declared.hasPlainFrame_event

theorem Payload.hasPlainFrame_events {p : Payload} {o : Overrides} {e : Event}
    (h : e ∈ p.events o) : e.HasPlainFrame := by
  obtain ⟨key, _, rfl⟩ := List.mem_map.mp h
  refine hasPlainFrame_mk (by decide) (by decide) ?_
  simp only [List.forall_mem_cons]
  exact ⟨isTold_sent _ (by decide) (by decide), isTold_sent _ (by decide) (by decide), by simp⟩

theorem WriteResult.hasPlainFrame_events {result : WriteResult} {e : Event}
    (h : e ∈ result.events) : e.HasPlainFrame := by
  cases result with
  | preview path content => cases h
  | written path bytes =>
      cases List.mem_singleton.mp h
      refine hasPlainFrame_mk (by decide) (by decide) ?_
      simp only [List.forall_mem_cons]
      exact ⟨isTold_sent _ (by decide) (by decide),
        isTold_plain (by decide) (newline_not_mem_number _), by simp⟩

theorem Generated.hasPlainFrame_event (g : Generated) (result : WriteResult) :
    (g.event result).HasPlainFrame := by
  have hwritten : '\n' ∉ (toString result.isWritten).toList := by
    cases result.isWritten <;> decide
  refine hasPlainFrame_mk (by decide) (by decide) ?_
  simp only [List.forall_mem_cons]
  exact ⟨isTold_sent _ (by decide) (by decide),
    isTold_plain (by decide) (newline_not_mem_number _),
    isTold_plain (by decide) (newline_not_mem_number _),
    isTold_plain (by decide) (newline_not_mem_number _), isTold_plain (by decide) hwritten,
    by simp⟩

theorem Settings.hasPlainFrame_write [TypeScript.Recovery] (s : Settings)
    (disk : Disk (StateM σ)) (d : Datamodel) (t : σ) {e : Event} (h : e ∈ ((s.write disk false d).run t).1.events) : e.HasPlainFrame := by
  rw [run_write] at h
  cases hgenerate : s.generate d with
  | error fault =>
      rw [hgenerate] at h
      exact Datamodel.hasPlainFrame_events h
  | ok g =>
      rw [hgenerate] at h
      dsimp only at h
      cases hrun : (disk.writeOutput g.path g.content).run t with
      | mk answer u =>
          rw [hrun] at h
          cases answer with
          | error fault => exact Datamodel.hasPlainFrame_events h
          | ok w =>
              rw [List.mem_append, List.mem_append] at h
              obtain (hdatamodel | hresult) | hdone := h
              · exact Datamodel.hasPlainFrame_events hdatamodel
              · exact WriteResult.hasPlainFrame_events hresult
              · cases List.mem_singleton.mp hdone
                exact g.hasPlainFrame_event w

theorem Payload.hasPlainFrame_generate [TypeScript.Recovery] (p : Payload)
    (disk : Disk (StateM σ)) (t : σ) {e : Event}
    (h : e ∈ ((p.generate disk).run t).1.events) : e.HasPlainFrame := by
  unfold Payload.generate at h
  cases hsettings : p.settings {} with
  | error fault =>
      rw [hsettings] at h
      exact Payload.hasPlainFrame_events h
  | ok s =>
      rw [hsettings] at h
      dsimp only at h
      rw [run_step] at h
      cases List.mem_append.mp h with
      | inl hpayload => exact Payload.hasPlainFrame_events hpayload
      | inr hwrite => exact s.hasPlainFrame_write disk _ t hwrite

end SchemaTypes
