import Keymap.Compile.Document
import Keymap.Proofs.Schema.Binding

/-!
The bindings that the entries of a document declare: each is kept in its normal form and belongs to
the place of an entry.
-/

set_option autoImplicit false

namespace Keymap

namespace Compile

open Schema (Kept)

variable (options : Options)

theorem mem_readExpanded (kinds : List Kind) (label : String) (index : Int) (entries : List Fields)
    (binding : Binding) (member : binding ∈ (readExpanded options kinds label index entries).2) :
    ∃ entry ∈ entries,
      (Schema.readBinding options kinds label index (.object entry)).result = .ok binding := by
  induction entries with
  | nil => cases member
  | cons entry rest ih =>
    unfold readExpanded at member
    dsimp only at member
    split at member
    · next first reading =>
      rcases List.mem_cons.mp member with rfl | later
      · exact ⟨entry, .head _, reading⟩
      · obtain ⟨source, given, read⟩ := ih later
        exact ⟨source, .tail _ given, read⟩
    · obtain ⟨source, given, read⟩ := ih member
      exact ⟨source, .tail _ given, read⟩

theorem readEntry_kept (spec : Specification) (defaults : DefaultTable) (index : Nat)
    (value : Value) (bindings : List Binding)
    (ended : (readEntry options spec defaults index value).result = .ok bindings)
    (binding : Binding) (member : binding ∈ bindings) :
    binding.index = index ∧ Kept binding := by
  unfold readEntry at ended
  dsimp only at ended
  split at ended
  · cases ended
    cases member
  · obtain ⟨expanded, _, ended⟩ := Noted.andThen_ok _ _ _ ended
    obtain ⟨_, _, ended⟩ := Noted.andThen_ok _ _ _ ended
    cases ended
    obtain ⟨entry, _, read⟩ := mem_readExpanded options _ _ _ expanded binding member
    exact Schema.readBinding_kept options _ _ _ _ binding read

theorem readEntries_kept (spec : Specification) (defaults : DefaultTable) (index : Nat)
    (values : List Value) (bindings : List Binding)
    (ended : (readEntries options spec defaults index values).result = .ok bindings)
    (binding : Binding) (member : binding ∈ bindings) :
    (∃ place < values.length, binding.index = (index + place : Nat)) ∧ Kept binding := by
  induction values generalizing index bindings with
  | nil =>
    cases ended
    cases member
  | cons value rest ih =>
    obtain ⟨first, reading, ended⟩ := Noted.andThen_ok _ _ _ ended
    obtain ⟨others, readingRest, ended⟩ := Noted.andThen_ok _ _ _ ended
    cases ended
    rcases List.mem_append.mp member with here | later
    · obtain ⟨place, kept⟩ := readEntry_kept options spec defaults index value first reading
        binding here
      exact ⟨⟨0, Nat.succ_pos _, place⟩, kept⟩
    · obtain ⟨⟨place, inside, stands⟩, kept⟩ := ih (index + 1) others readingRest later
      refine ⟨⟨place + 1, Nat.succ_lt_succ inside, ?_⟩, kept⟩
      rw [stands]
      congr 1
      omega

/-- Every binding of a document belongs to one of its entries. -/
theorem expandEntries_kept (spec : Specification) (bindings : List Binding)
    (ended : (expandEntries options spec).result = .ok bindings) (binding : Binding)
    (member : binding ∈ bindings) :
    (0 ≤ binding.index ∧ binding.index < spec.bindings.length) ∧ Kept binding := by
  obtain ⟨_, _, ended⟩ := Noted.andThen_ok _ _ _ ended
  obtain ⟨⟨place, inside, stands⟩, kept⟩ := readEntries_kept options spec _ 0 _ bindings ended
    binding member
  refine ⟨?_, kept⟩
  rw [stands]
  omega

end Compile

end Keymap
