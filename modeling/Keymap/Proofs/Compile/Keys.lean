import Keymap.Proofs.Compile.Concrete
import Keymap.Proofs.Compile.Failures
import Keymap.Proofs.Schema.Keys
import Keymap.Proofs.Sequence.Handed

/-!
The keys of a compiled document, those that bindings are for and those that codes stand for. Each is
the small form of a press that an entry writes, so it is a press that the reader accepts just when
the written one lasts (`keys_pressable_iff`).
-/

set_option autoImplicit false

namespace Keymap

namespace Compile

open Key (isPress Lasting lowered)
open Schema (Pressed keyTexts itemLabel readKey)
open Text (wordsOf IsWord)

/-- The entries that are read as bindings: those of the document with their defaults, their
commands and their variables filled in. -/
def IsExpanded (spec : Specification) (copy : Fields) : Prop :=
  ∃ index entry resolved copies, spec.bindings[index]? = some (.object entry) ∧
    prepared spec index entry = .ok resolved ∧
    (Foreach.expand spec.definitions (itemLabel "bind" index) resolved).result = .ok copies ∧
    copy ∈ copies

section Entries

variable (options : Options) (spec : Specification)

theorem expandEntry_copies (index : Nat) (entry : Fields) (copies : List Fields)
    (ended : (expandEntry options (DefaultTable.ofEntries spec.defaults).2 spec.definitions
      (itemLabel "bind" index) entry).result = .ok copies) (copy : Fields) (among : copy ∈ copies) :
    ∃ resolved all, prepared spec index entry = .ok resolved ∧
      (Foreach.expand spec.definitions (itemLabel "bind" index) resolved).result = .ok all ∧
      copy ∈ all := by
  cases ready : prepared spec index entry with
  | error defect =>
    rw [expandEntry_refused options spec index entry defect ready] at ended
    cases ended
    cases among
  | ok resolved =>
    rw [expandEntry_ready options spec index entry resolved ready] at ended
    refine ⟨resolved, ?_⟩
    cases expanded : (Foreach.expand spec.definitions (itemLabel "bind" index) resolved).result with
    | ok all =>
      rw [expanded] at ended
      cases ended
      exact ⟨copies, rfl, rfl, among⟩
    | error fault =>
      rw [expanded] at ended
      cases fault <;> cases ended
      cases among

/-- A binding is read from one of the entries that the entry at its place stands for. -/
theorem readEntry_source (index : Nat) (value : Value)
    (stands : spec.bindings[index]? = some value) (bindings : List Binding)
    (ended : (readEntry options spec (DefaultTable.ofEntries spec.defaults).2 index
      value).result = .ok bindings) (binding : Binding) (member : binding ∈ bindings) :
    ∃ copy label place, IsExpanded spec copy ∧
      (Schema.readBinding options spec.kinds label place (.object copy)).result = .ok binding := by
  unfold readEntry at ended
  dsimp only at ended
  cases value with
  | object entry =>
    obtain ⟨copies, expanding, ended⟩ := Noted.andThen_ok _ _ _ ended
    obtain ⟨_, _, ended⟩ := Noted.andThen_ok _ _ _ ended
    cases ended
    obtain ⟨copy, among, read⟩ := mem_readExpanded options _ _ _ copies binding member
    obtain ⟨resolved, all, ready, expanded, inside⟩ :=
      expandEntry_copies options spec index entry copies expanding copy among
    exact ⟨copy, _, _, ⟨index, entry, resolved, all, stands, ready, expanded, inside⟩, read⟩
  | _ =>
    cases ended
    cases member

theorem readEntries_source (index : Nat) (values : List Value) (bindings : List Binding)
    (ended : (readEntries options spec (DefaultTable.ofEntries spec.defaults).2 index
      values).result = .ok bindings)
    (stands : ∀ place value, values[place]? = some value →
      spec.bindings[index + place]? = some value)
    (binding : Binding) (member : binding ∈ bindings) :
    ∃ copy label place, IsExpanded spec copy ∧
      (Schema.readBinding options spec.kinds label place (.object copy)).result = .ok binding := by
  induction values generalizing index bindings with
  | nil =>
    cases ended
    cases member
  | cons value rest ih =>
    obtain ⟨first, reading, ended⟩ := Noted.andThen_ok _ _ _ ended
    obtain ⟨others, readingRest, ended⟩ := Noted.andThen_ok _ _ _ ended
    cases ended
    rcases List.mem_append.mp member with here | later
    · exact readEntry_source options spec index value (stands 0 value rfl) first reading binding
        here
    · refine ih (index + 1) others readingRest (fun place other there => ?_) later
      rw [Nat.add_right_comm]
      exact stands (place + 1) other there

theorem expandEntries_source (bindings : List Binding)
    (ended : (expandEntries options spec).result = .ok bindings) (binding : Binding)
    (member : binding ∈ bindings) :
    ∃ copy label place, IsExpanded spec copy ∧
      (Schema.readBinding options spec.kinds label place (.object copy)).result = .ok binding := by
  obtain ⟨_, _, ended⟩ := Noted.andThen_ok _ _ _ ended
  exact readEntries_source options spec 0 spec.bindings bindings ended (by simp) binding member

/-- Every key of a sequence that is compiled is a press that an entry writes, in small letters. -/
theorem placed_pressed (modes : List Mode) (expanded : List Binding)
    (ended : (expandEntries options spec).result = .ok expanded) (binding : Binding)
    (member : binding ∈ placed modes expanded) (key : String)
    (typed : key ∈ Sequence.sequenceOf binding) :
    ∃ copy, IsExpanded spec copy ∧ Pressed (keyTexts copy) key := by
  obtain ⟨source, given, _, _, same, _, leads⟩ := placed_source modes expanded binding member
  obtain ⟨copy, label, place, stands, read⟩ :=
    expandEntries_source options spec expanded ended source given
  refine ⟨copy, stands, ?_⟩
  apply Schema.readBinding_pressed options spec.kinds label place copy source read
  rcases List.mem_append.mp typed with before | own
  · right
    rcases leads with whole | ⟨lead, asked, one⟩
    · rw [whole] at before
      cases listed : source.prefixes with
      | nil =>
        rw [listed, List.headD_nil, Text.words_of_empty] at before
        cases before
      | cons lead rest =>
        rw [listed] at before
        exact ⟨lead, .head _, before⟩
    · rw [one] at before
      exact ⟨lead, asked, before⟩
  · left
    rwa [← same]

/-- A key that the editor binds, or one of those that a code stands for. -/
def Holds (result : CompileResult) (key : String) : Prop :=
  (∃ binding ∈ result.bindings, binding.key = key) ∨
    ∃ name code, (name, code) ∈ result.codes.entries ∧ key ∈ wordsOf name

theorem held_in_sequence (result : CompileResult)
    (ended : (specification options spec).result = .ok result) (key : String)
    (held : Holds result key) :
    ∃ expanded, (expandEntries options spec).result = .ok expanded ∧
      ∃ binding ∈ placed result.modes expanded, key ∈ Sequence.sequenceOf binding := by
  obtain ⟨expanded, expanding, _, codes, _, assembled⟩ :=
    specification_stages options spec result ended
  refine ⟨expanded, expanding, ?_⟩
  have formed := placed_formed result.modes expanded fun binding member =>
    (expandEntries_kept options spec expanded expanding binding member).2
  rcases held with ⟨made, among, rfl⟩ | ⟨name, code, among, inside⟩
  · obtain ⟨compiled, member, making⟩ := source_of_assembled _ _ _ _ assembled made among
    obtain ⟨_, _, sameKey, _⟩ := ConcreteBinding.ofBinding_ok _ _ _ _ making
    obtain ⟨binding, given, _, before, key, after, split, place⟩ :=
      (Sequence.compiled_places_iff options _ formed compiled.signature).mp
        (List.mem_map_of_mem member)
    have own : compiled.key = key := by
      have same := congrArg Binding.Signature.key place
      unfold Sequence.keyPlace at same
      split at same <;> exact same
    exact ⟨binding, given, by rw [sameKey, own, split]; simp⟩
  · rw [codes] at among
    have named := List.mem_of_getElem? ((CodeTable.mem_freeze _ name code).mp among)
    rcases (Sequence.named_iff options _ name).mp named with
      rfl | ⟨binding, given, before, last, ⟨_, after, split, _⟩, rfl⟩
    · rw [Text.words_of_empty] at inside
      cases inside
    · refine ⟨binding, given, ?_⟩
      have whole : Sequence.sequenceOf binding = before ++ [last] ++ after := by
        rw [split, List.append_cons]
      rw [Text.words_of_joined _ (Sequence.words_before binding _ after whole)] at inside
      rw [whole]
      exact List.mem_append_left after inside

end Entries

/-- A press that an entry of the document writes and that is accepted as it is written. -/
def Typed (spec : Specification) (press : String) : Prop :=
  ∃ copy text, IsExpanded spec copy ∧ text ∈ keyTexts copy ∧ press ∈ wordsOf text ∧
    isPress press.toList = true

theorem document_pressable_iff (options : Options) (document : Value) (compiled : Compiled)
    (ended : Compile.document options document = .ok compiled) :
    ∃ current spec, upgraded document = .ok current ∧
      (Schema.readSpecification current).result = .ok spec ∧
      ∀ key, Holds compiled.result key → ∃ press, Typed spec press ∧ key = lowered press ∧
        (isPress key.toList = true ↔ Lasting press.toList) := by
  obtain ⟨current, spec, result, upgrading, reading, compiling, made⟩ :=
    document_sections options document compiled ended
  refine ⟨current, spec, upgrading, reading, fun key held => ?_⟩
  have own : Holds result key := by
    rw [made] at held
    exact held
  obtain ⟨expanded, expanding, binding, member, typed⟩ :=
    held_in_sequence options spec result compiling key own
  obtain ⟨copy, stands, text, given, press, among, accepted, rfl⟩ :=
    placed_pressed options spec _ expanded expanding binding member key typed
  refine ⟨press, ⟨copy, text, stands, given, among, accepted⟩, rfl, ?_⟩
  rw [lowered, String.toList_ofList, Key.isPress_lower_iff _ accepted]

/-- What is kept of a sequence is accepted again, and stays as it is, just when every press that was
written lasts. So does every key of a compiled document: it is a press just when the one that it was
made of lasts. -/
theorem keys_pressable_iff (options : Options) :
    (∀ label there content key, readKey label (.text content) = .ok key →
      (readKey there (.text key) = .ok key ↔ ∀ press ∈ wordsOf content, Lasting press.toList) ∧
        ∀ again, readKey there (.text key) = .ok again → again = key) ∧
    ∀ document compiled, Compile.document options document = .ok compiled →
      ∃ current spec, upgraded document = .ok current ∧
        (Schema.readSpecification current).result = .ok spec ∧
        ∀ key, Holds compiled.result key → ∃ press, Typed spec press ∧ key = lowered press ∧
          (isPress key.toList = true ↔ Lasting press.toList) :=
  ⟨Schema.readKey_again_iff, document_pressable_iff options⟩

/-- A sequence of two places on the keyboard; the second is only known with its capital. -/
def places : List Fields :=
  [[("key", .text "[KeyG] [Backquote]"), ("command", .text "x")]]

theorem places_compile : ∃ compiled,
    Compile.document .default (plainDocument [] places) = .ok compiled ∧
      ∃ binding ∈ compiled.result.bindings, binding.key = "[backquote]" := by
  obtain ⟨compiled, ended, found⟩ := ended_of_check
    (Compile.document .default (plainDocument [] places))
    (fun compiled => compiled.result.bindings.any fun binding => binding.key = "[backquote]")
    (by decide +kernel)
  obtain ⟨binding, among, here⟩ := List.any_eq_true.mp found
  exact ⟨compiled, ended, binding, among, by simpa using here⟩

theorem pressable_of_places :
    readKey "there" (.text "[keyg]") = .ok "[keyg]" ∧
    ∃ compiled spec press, Compile.document .default (plainDocument [] places) = .ok compiled ∧
      Holds compiled.result "[backquote]" ∧ Typed spec press ∧ "[backquote]" = lowered press ∧
      (isPress "[backquote]".toList = true ↔ Lasting press.toList) := by
  obtain ⟨compiled, ended, binding, among, here⟩ := places_compile
  have read : readKey "key" (.text "[KeyG]") = .ok "[keyg]" :=
    (Schema.readKey_iff _ _ _).mpr ⟨by decide +kernel, by decide +kernel⟩
  obtain ⟨again, _⟩ := (keys_pressable_iff .default).1 "key" "there" "[KeyG]" "[keyg]" read
  obtain ⟨_, spec, _, _, lasting⟩ := (keys_pressable_iff .default).2 _ compiled ended
  obtain ⟨press, typed, small, iff⟩ := lasting "[backquote]" (.inl ⟨binding, among, here⟩)
  exact ⟨again.mpr (by decide +kernel), compiled, spec, press, ended,
    .inl ⟨binding, among, here⟩, typed, small, iff⟩

/-- Keys are accepted that are refused in the form in which they are kept. -/
theorem kept_key_refused :
    ¬ (∀ label content key, readKey label (.text content) = .ok key →
        readKey label (.text key) = .ok key) ∧
    ¬ ∀ options document compiled, Compile.document options document = .ok compiled →
        ∀ binding ∈ compiled.result.bindings, isPress binding.key.toList = true := by
  constructor
  · intro again
    have read : readKey "key" (.text "[Backquote]") = .ok "[backquote]" :=
      (Schema.readKey_iff _ _ _).mpr ⟨by decide +kernel, by decide +kernel⟩
    have accepted := ((Schema.readKey_iff _ _ _).mp (again _ _ _ read)).1
    exact absurd accepted (by decide +kernel)
  · intro pressable
    obtain ⟨compiled, ended, binding, among, here⟩ := places_compile
    have accepted := pressable .default _ compiled ended binding among
    rw [here] at accepted
    exact absurd accepted (by decide +kernel)

end Compile

end Keymap
