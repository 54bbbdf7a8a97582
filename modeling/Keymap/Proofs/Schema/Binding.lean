import Keymap.Proofs.Key.Normal
import Keymap.Proofs.Noted
import Keymap.Schema.Binding

/-!
What holds of every binding that an entry declares: it is put together of what was read of the
entry (`readBinding_parts`), its key and its prefixes are kept in their normal form, and only a
prefix may be empty.
-/

set_option autoImplicit false

namespace Keymap

namespace Schema

open Text (IsNormal)

/-- Keys and prefixes in the form in which they are kept. -/
structure Kept (binding : Binding) : Prop where
  key : IsNormal binding.key
  keyed : binding.key ≠ ""
  prefixes : ∀ lead ∈ binding.prefixes, IsNormal lead

theorem readKey_kept (label : String) (value : Value) (key : String)
    (read : readKey label value = .ok key) : IsNormal key ∧ key ≠ "" := by
  obtain ⟨text, _, read⟩ := bind_ok _ _ _ read
  split at read
  · next valid =>
    rw [← Except.ok.inj read]
    exact ⟨Key.normalize_normal _, Key.normalize_nonempty _ valid⟩
  · cases read

theorem readEachLead_kept (label : String) (index : Nat) (texts leads : List String)
    (read : readEachLead label index texts = .ok leads) : ∀ lead ∈ leads, IsNormal lead := by
  induction texts generalizing index leads with
  | nil =>
    cases read
    simp
  | cons text rest ih =>
    rw [readEachLead] at read
    split at read
    · obtain ⟨first, readingFirst, read⟩ := bind_ok _ _ _ read
      obtain ⟨others, reading, read⟩ := bind_ok _ _ _ read
      cases readingFirst
      cases read
      exact List.forall_mem_cons.mpr ⟨by decide, ih _ others reading⟩
    · obtain ⟨first, readingFirst, read⟩ := bind_ok _ _ _ read
      obtain ⟨others, reading, read⟩ := bind_ok _ _ _ read
      cases read
      exact List.forall_mem_cons.mpr
        ⟨(readKey_kept _ _ first readingFirst).1, ih _ others reading⟩

theorem readPrefixes_kept (label : String) (value : Value) (leads : List String)
    (read : readPrefixes label value = .ok leads) : ∀ lead ∈ leads, IsNormal lead := by
  unfold readPrefixes at read
  split at read
  · cases read
    decide
  · split at read
    · cases read
      simp
    · exact readEachLead_kept label 0 _ leads read
  · obtain ⟨texts, _, read⟩ := bind_ok _ _ _ read
    exact readEachLead_kept label 0 texts leads read

theorem readAction_parts (options : Options) (label : String) (entry : Fields) (action : Action)
    (read : readAction options label entry = .ok action) :
    readKey (label ++ ".key") (entry.read "key") = .ok action.key ∧
      readEntryCommands label entry = .ok action.commands ∧
      optionalFlag (label ++ ".finalKey") (entry.read "finalKey") = .ok action.finalKey := by
  obtain ⟨_, _, read⟩ := bind_ok _ _ _ read
  split at read
  · cases read
  obtain ⟨key, readingKey, read⟩ := bind_ok _ _ _ read
  obtain ⟨commands, readingCommands, read⟩ := bind_ok _ _ _ read
  split at read
  · cases read
  obtain ⟨_, _, read⟩ := bind_ok _ _ _ read
  obtain ⟨final, readingFinal, read⟩ := bind_ok _ _ _ read
  cases read
  exact ⟨readingKey, readingCommands, readingFinal⟩

theorem readAction_kept (options : Options) (label : String) (entry : Fields) (action : Action)
    (read : readAction options label entry = .ok action) :
    IsNormal action.key ∧ action.key ≠ "" :=
  readKey_kept _ _ action.key (readAction_parts options label entry action read).1

theorem readReach_prefixes (label : String) (entry : Fields) (reach : Reach)
    (read : readReach label entry = .ok reach) :
    readPrefixes (label ++ ".prefixes") (entry.read "prefixes") = .ok reach.prefixes := by
  obtain ⟨_, _, read⟩ := bind_ok _ _ _ read
  obtain ⟨_, _, read⟩ := bind_ok _ _ _ read
  obtain ⟨leads, reading, read⟩ := bind_ok _ _ _ read
  obtain ⟨_, _, read⟩ := bind_ok _ _ _ read
  cases read
  exact reading

theorem readReach_kept (label : String) (entry : Fields) (reach : Reach)
    (read : readReach label entry = .ok reach) : ∀ lead ∈ reach.prefixes, IsNormal lead :=
  readPrefixes_kept _ _ reach.prefixes (readReach_prefixes label entry reach read)

/-- An entry declares a binding of its own place in the document. -/
theorem readBinding_kept (options : Options) (kinds : List Kind) (label : String) (index : Int)
    (value : Value) (binding : Binding)
    (ended : (readBinding options kinds label index value).result = .ok binding) :
    binding.index = index ∧ Kept binding := by
  obtain ⟨entry, _, ended⟩ := Noted.andThen_ok _ _ _ ended
  obtain ⟨action, acting, ended⟩ := Noted.andThen_ok _ _ _ ended
  obtain ⟨_, _, ended⟩ := Noted.andThen_ok _ _ _ ended
  obtain ⟨_, _, ended⟩ := Noted.andThen_ok _ _ _ ended
  obtain ⟨_, _, ended⟩ := Noted.andThen_ok _ _ _ ended
  obtain ⟨reach, reaching, ended⟩ := Noted.andThen_ok _ _ _ ended
  cases ended
  obtain ⟨key, keyed⟩ := readAction_kept options label entry action acting
  exact ⟨rfl, key, keyed, readReach_kept label entry reach reaching⟩

/-- The binding that is put together of what an entry does, where it holds and its documentation. -/
def Action.binding (options : Options) (index : Int) (action : Action) (reach : Reach)
    (docs : Fields) : Binding where
  key := action.key
  commands := action.commands
  index := index
  guards := reach.guards
  modes := reach.modes
  implicit := false
  prefixes := reach.prefixes
  priority := reach.priority
  finalKey := action.endsSequence options
  repeatCount := action.repeatCount
  docs := docs

theorem readBinding_parts (options : Options) (kinds : List Kind) (label : String) (index : Int)
    (entry : Fields) (binding : Binding)
    (ended : (readBinding options kinds label index (.object entry)).result = .ok binding) :
    ∃ action docs reach, readAction options label entry = .ok action ∧
      readDocs label entry = .ok docs ∧ readReach label entry = .ok reach ∧
      binding = action.binding options index reach docs ∧
      (readBinding options kinds label index (.object entry)).notes =
        action.problems options label ++ kindProblems kinds label docs := by
  obtain ⟨_, mapped, ended⟩ :=
    Noted.andThen_ok (Noted.ofExcept (mapping label (.object entry))) _ _ ended
  cases mapped
  obtain ⟨action, acting, ended⟩ := Noted.andThen_ok _ _ _ ended
  obtain ⟨_, _, ended⟩ := Noted.andThen_ok _ _ _ ended
  obtain ⟨docs, documented, ended⟩ := Noted.andThen_ok _ _ _ ended
  obtain ⟨_, _, ended⟩ := Noted.andThen_ok _ _ _ ended
  obtain ⟨reach, reaching, ended⟩ := Noted.andThen_ok _ _ _ ended
  cases ended
  simp only [Noted.ofExcept] at acting documented reaching
  refine ⟨action, docs, reach, acting, documented, reaching, rfl, ?_⟩
  simp [readBinding, mapping, Noted.bind_eq, Noted.andThen, Noted.ofExcept, acting, documented,
    reaching, Noted.note, Noted.pure_eq, Noted.done]

end Schema

end Keymap
