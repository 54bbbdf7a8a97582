import Keymap.Proofs.Noted
import Keymap.Schema.Specification

/-!
What holds of the sections of a document once they are read.
-/

set_option autoImplicit false

namespace Keymap

namespace Schema

theorem nonEmptyText_ok (label text : String) (value : Value)
    (read : nonEmptyText label value = .ok text) : text ≠ "" := by
  unfold nonEmptyText at read
  split at read
  · dsimp only at read
    split at read
    · cases read
    · next nonempty =>
      cases read
      simpa using nonempty
  · cases read

theorem nonEmptyText_trims (label text : String) (value : Value)
    (read : nonEmptyText label value = .ok text) :
    ∃ content, value = .text content ∧ text = Text.trimmed content := by
  unfold nonEmptyText at read
  split at read
  · next content =>
    dsimp only at read
    split at read <;> cases read
    exact ⟨content, rfl, rfl⟩
  · cases read

theorem readMode_named (label : String) (value : Value) (mode : Mode)
    (read : readMode label value = .ok mode) : mode.name ≠ "" := by
  obtain ⟨entry, _, read⟩ := bind_ok _ _ _ read
  obtain ⟨_, _, read⟩ := bind_ok _ _ _ read
  obtain ⟨name, named, read⟩ := bind_ok _ _ _ read
  obtain ⟨_, _, read⟩ := bind_ok _ _ _ read
  obtain ⟨_, _, read⟩ := bind_ok _ _ _ read
  obtain ⟨_, _, read⟩ := bind_ok _ _ _ read
  obtain ⟨_, _, read⟩ := bind_ok _ _ _ read
  obtain ⟨_, _, read⟩ := bind_ok _ _ _ read
  obtain ⟨_, _, read⟩ := bind_ok _ _ _ read
  cases read
  exact nonEmptyText_ok _ name _ named

theorem mem_readEntries {Entry : Type} (read : String → Value → Except Defect Entry)
    (label : String) (index : Nat) (values : List Value) (entries : List Entry)
    (ended : (readEntries read label index values).result = .ok entries) (entry : Entry)
    (member : entry ∈ entries) : ∃ place value, read place value = .ok entry := by
  induction values generalizing index entries with
  | nil =>
    cases ended
    cases member
  | cons value rest ih =>
    unfold readEntries at ended
    split at ended
    · next first reading =>
      obtain ⟨others, passed, ended⟩ := Noted.andThen_ok _ _ _ ended
      cases ended
      rcases List.mem_cons.mp member with rfl | later
      · exact ⟨_, _, reading⟩
      · exact ih _ others passed later
    · obtain ⟨_, _, ended⟩ := Noted.andThen_ok _ _ _ ended
      exact ih _ entries ended member

/-- The modes of a document have names. -/
theorem readSpecification_named (document : Value) (spec : Specification)
    (ended : (readSpecification document).result = .ok spec) (mode : Mode)
    (declared : mode ∈ spec.modes) : mode.name ≠ "" := by
  obtain ⟨root, _, ended⟩ := Noted.andThen_ok _ _ _ ended
  obtain ⟨_, _, ended⟩ := Noted.andThen_ok _ _ _ ended
  obtain ⟨header, _, ended⟩ := Noted.andThen_ok _ _ _ ended
  obtain ⟨bindings, _, ended⟩ := Noted.andThen_ok _ _ _ ended
  obtain ⟨modeEntries, _, ended⟩ := Noted.andThen_ok _ _ _ ended
  obtain ⟨modes, reading, ended⟩ := Noted.andThen_ok _ _ _ ended
  obtain ⟨_, _, ended⟩ := Noted.andThen_ok _ _ _ ended
  obtain ⟨_, _, ended⟩ := Noted.andThen_ok _ _ _ ended
  obtain ⟨_, _, ended⟩ := Noted.andThen_ok _ _ _ ended
  obtain ⟨_, _, ended⟩ := Noted.andThen_ok _ _ _ ended
  obtain ⟨_, _, ended⟩ := Noted.andThen_ok _ _ _ ended
  cases ended
  obtain ⟨place, value, read⟩ := mem_readEntries readMode _ _ _ modes reading mode declared
  exact readMode_named place value mode read

/-- A document with sections is a mapping, and its entries are those of one section. -/
theorem readSpecification_entries (document : Value) (spec : Specification)
    (ended : (readSpecification document).result = .ok spec) :
    ∃ root, document = .object root ∧ entries root "bind" = .ok spec.bindings := by
  obtain ⟨root, mapped, ended⟩ := Noted.andThen_ok _ _ _ ended
  obtain ⟨_, _, ended⟩ := Noted.andThen_ok _ _ _ ended
  obtain ⟨_, _, ended⟩ := Noted.andThen_ok _ _ _ ended
  obtain ⟨bindings, reading, ended⟩ := Noted.andThen_ok _ _ _ ended
  obtain ⟨_, _, ended⟩ := Noted.andThen_ok _ _ _ ended
  obtain ⟨_, _, ended⟩ := Noted.andThen_ok _ _ _ ended
  obtain ⟨_, _, ended⟩ := Noted.andThen_ok _ _ _ ended
  obtain ⟨_, _, ended⟩ := Noted.andThen_ok _ _ _ ended
  obtain ⟨_, _, ended⟩ := Noted.andThen_ok _ _ _ ended
  obtain ⟨_, _, ended⟩ := Noted.andThen_ok _ _ _ ended
  obtain ⟨_, _, ended⟩ := Noted.andThen_ok _ _ _ ended
  cases ended
  cases document with
  | object fields =>
    cases mapped
    exact ⟨root, rfl, reading⟩
  | _ => cases mapped

end Schema

end Keymap
