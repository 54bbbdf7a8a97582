import Keymap.Proofs.Key.Lasting
import Keymap.Proofs.Schema.Binding
import Keymap.Proofs.Schema.Specification

/-!
Where the keys of a binding come from. Every key that is kept, in the key of a binding or in one of
its prefixes, is the small form of a press that its entry writes there (`readBinding_pressed`).
-/

set_option autoImplicit false

namespace Keymap

namespace Schema

open Key (isPress Lasting lowered)
open Text (wordsOf)

theorem isSequence_trimmed (text : String) :
    Key.isSequence (Text.trimmed text).toList = Key.isSequence text.toList := by
  rw [Bool.eq_iff_iff, Key.isSequence_iff, Key.isSequence_iff, Text.words_of_trimmed]

theorem normalize_trimmed (text : String) :
    Key.normalize (Text.trimmed text).toList = Key.normalize text.toList := by
  rw [Key.normalize_eq, Key.normalize_eq, String.ofList_toList, String.ofList_toList,
    Text.words_of_trimmed]

theorem readKey_text (label : String) (value : Value) (key : String)
    (read : readKey label value = .ok key) : ∃ content, value = .text content ∧
      Key.isSequence content.toList = true ∧ key = Key.normalize content.toList := by
  obtain ⟨text, trims, read⟩ := bind_ok _ _ _ read
  obtain ⟨content, rfl, rfl⟩ := nonEmptyText_trims label text value trims
  rw [isSequence_trimmed, normalize_trimmed] at read
  split at read
  · next valid => exact ⟨content, rfl, valid, (Except.ok.inj read).symm⟩
  · cases read

theorem readKey_iff (label content key : String) :
    readKey label (.text content) = .ok key ↔
      Key.isSequence content.toList = true ∧ key = Key.normalize content.toList := by
  constructor
  · intro read
    obtain ⟨_, same, valid⟩ := readKey_text label _ key read
    rwa [Value.text.inj same]
  · rintro ⟨valid, rfl⟩
    have nonempty : Text.trimmed content ≠ "" := by
      intro blank
      have words := Text.words_of_trimmed content
      rw [blank, Text.words_of_empty] at words
      exact ((Key.isSequence_iff content).mp valid).1 words.symm
    have trims : nonEmptyText label (.text content) = .ok (Text.trimmed content) := by
      simp [nonEmptyText, nonempty]
    rw [readKey, trims]
    simp only [Bind.bind, Except.bind, isSequence_trimmed, normalize_trimmed, valid, if_true]
    rfl

/-- What is read from a key is read again as it is, if all presses last; otherwise it is refused. -/
theorem readKey_again_iff (label there content key : String)
    (read : readKey label (.text content) = .ok key) :
    (readKey there (.text key) = .ok key ↔ ∀ press ∈ wordsOf content, Lasting press.toList) ∧
      ∀ again, readKey there (.text key) = .ok again → again = key := by
  obtain ⟨valid, rfl⟩ := (readKey_iff label content key).mp read
  rw [readKey_iff, Key.normalize_normalize, Key.isSequence_normalize_iff content valid,
    and_iff_left rfl]
  refine ⟨Iff.rfl, fun again readAgain => ?_⟩
  rw [((readKey_iff there _ again).mp readAgain).2, Key.normalize_normalize]

/-- One text or several. -/
def leadTexts : Value → List String
  | .text content => [content]
  | .list items => items.filterMap Value.text?
  | _ => []

/-- The texts in which an entry writes keys. -/
def keyTexts (entry : Fields) : List String :=
  (entry.read "key").text?.toList ++ leadTexts (entry.read "prefixes")

/-- Whether a key is the small form of a press among the words of some texts. -/
def Pressed (texts : List String) (key : String) : Prop :=
  ∃ text ∈ texts, ∃ press ∈ wordsOf text, isPress press.toList = true ∧ key = lowered press

theorem Pressed.mono {texts more : List String} (all : texts ⊆ more) {key : String}
    (pressed : Pressed texts key) : Pressed more key := by
  obtain ⟨text, given, press⟩ := pressed
  exact ⟨text, all given, press⟩

theorem readKey_pressed (label content sequence : String)
    (read : readKey label (.text content) = .ok sequence) (key : String)
    (member : key ∈ wordsOf sequence) : Pressed [content] key := by
  obtain ⟨valid, rfl⟩ := (readKey_iff label content sequence).mp read
  rw [Key.words_of_normalize, String.ofList_toList] at member
  obtain ⟨press, among, rfl⟩ := List.mem_map.mp member
  exact ⟨content, List.mem_singleton_self _, press, among,
    ((Key.isSequence_iff content).mp valid).2 press among, rfl⟩

theorem readEachLead_pressed (label : String) (index : Nat) (texts leads : List String)
    (read : readEachLead label index texts = .ok leads) (lead : String) (asked : lead ∈ leads)
    (key : String) (member : key ∈ wordsOf lead) : Pressed texts key := by
  induction texts generalizing index leads with
  | nil =>
    cases read
    cases asked
  | cons text rest ih =>
    rw [readEachLead] at read
    split at read
    · obtain ⟨first, blank, read⟩ := bind_ok _ _ _ read
      obtain ⟨others, reading, read⟩ := bind_ok _ _ _ read
      cases blank
      cases read
      rcases List.mem_cons.mp asked with rfl | later
      · rw [Text.words_of_empty] at member
        cases member
      · exact (ih (index + 1) others reading later).mono (List.subset_cons_self text rest)
    · obtain ⟨first, readingFirst, read⟩ := bind_ok _ _ _ read
      obtain ⟨others, reading, read⟩ := bind_ok _ _ _ read
      cases read
      rcases List.mem_cons.mp asked with rfl | later
      · exact (readKey_pressed _ text lead readingFirst key member).mono (by simp)
      · exact (ih (index + 1) others reading later).mono (List.subset_cons_self text rest)

theorem eachText_texts (label : String) (index : Nat) (items : List Value) (texts : List String)
    (read : eachText label index items = .ok texts) : texts = items.filterMap Value.text? := by
  induction items generalizing index texts with
  | nil =>
    cases read
    rfl
  | cons item rest ih =>
    cases item with
    | text content =>
      obtain ⟨others, reading, read⟩ := bind_ok _ _ _ read
      cases read
      rw [ih (index + 1) others reading]
      rfl
    | _ => cases read

theorem readPrefixes_pressed (label : String) (value : Value) (leads : List String)
    (read : readPrefixes label value = .ok leads) (lead : String) (asked : lead ∈ leads)
    (key : String) (member : key ∈ wordsOf lead) : Pressed (leadTexts value) key := by
  unfold readPrefixes at read
  split at read
  · cases read
    rw [List.mem_singleton.mp asked, Text.words_of_empty] at member
    cases member
  · next content =>
    split at read
    · cases read
      cases asked
    · exact readEachLead_pressed label 0 [content] leads read lead asked key member
  · obtain ⟨texts, listed, read⟩ := bind_ok _ _ _ read
    have pressed := readEachLead_pressed label 0 texts leads read lead asked key member
    unfold textList at listed
    split at listed
    · cases listed
      obtain ⟨_, given, _⟩ := pressed
      cases given
    · cases listed
      exact pressed
    · rwa [eachText_texts label 0 _ texts listed] at pressed
    · cases listed

/-- Every key of a binding is the small form of a press that its entry writes. -/
theorem readBinding_pressed (options : Options) (kinds : List Kind) (label : String) (index : Int)
    (entry : Fields) (binding : Binding)
    (ended : (readBinding options kinds label index (.object entry)).result = .ok binding)
    (key : String)
    (member : key ∈ wordsOf binding.key ∨ ∃ lead ∈ binding.prefixes, key ∈ wordsOf lead) :
    Pressed (keyTexts entry) key := by
  obtain ⟨action, docs, reach, acting, _, reaching, rfl, _⟩ :=
    readBinding_parts options kinds label index entry binding ended
  rcases member with own | ⟨lead, asked, inside⟩
  · have reading := (readAction_parts options label entry action acting).1
    obtain ⟨content, given, _⟩ := readKey_text _ _ action.key reading
    rw [given] at reading
    exact (readKey_pressed _ content action.key reading key own).mono
      (by simp [keyTexts, given, Value.text?])
  · exact (readPrefixes_pressed _ _ reach.prefixes (readReach_prefixes label entry reach reaching)
      lead asked key inside).mono (List.subset_append_right _ _)

end Schema

end Keymap
