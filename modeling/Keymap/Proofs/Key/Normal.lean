import Keymap.Key.Catalog
import Keymap.Proofs.Text.Words

/-!
The kept form of a key sequence: its words in small letters with single blanks between them
(`normalize_normal`). Small letters never make a blank of a letter, so no word is lost or split.
-/

set_option autoImplicit false

namespace Keymap.Text

theorem lowerAscii_shown (c : Char) (shown : isBlank c = false) :
    isBlank (lowerAscii c) = false := by
  unfold lowerAscii
  split
  · next capital =>
    simp only [Bool.and_eq_true, decide_eq_true_eq, Char.le_def, UInt32.le_iff_toNat_le] at capital
    have low : 65 ≤ c.toNat := capital.1
    have high : c.toNat ≤ 90 := capital.2
    have letters : ∀ place < 26, isBlank (Char.ofNat (97 + place)) = false := by decide
    rw [show c.toNat + 32 = 97 + (c.toNat - 65) by omega]
    exact letters (c.toNat - 65) (by omega)
  · exact shown

end Keymap.Text

namespace Keymap.Key

open Text (wordsOf joined IsWord IsNormal isBlank)

def lowered (word : String) : String := String.ofList (lower word.toList)

theorem lower_cons (c : Char) (rest : List Char) : lower (c :: rest) = lower [c] ++ lower rest := by
  simp [lower]

theorem lower_append (left right : List Char) : lower (left ++ right) = lower left ++ lower right :=
  List.flatMap_append

theorem lower_nonempty (c : Char) : lower [c] ≠ [] := by
  simp only [lower, List.flatMap_cons, List.flatMap_nil, List.append_nil]
  split
  · simp
  · split <;> simp

theorem lower_shown (c : Char) (shown : isBlank c = false) (small : Char)
    (member : small ∈ lower [c]) : isBlank small = false := by
  simp only [lower, List.flatMap_cons, List.flatMap_nil, List.append_nil] at member
  split at member
  · simp only [List.mem_cons, List.not_mem_nil, or_false] at member
    rcases member with rfl | rfl <;> decide
  · split at member
    · rw [List.mem_singleton.mp member]
      decide
    · rw [List.mem_singleton.mp member]
      exact Text.lowerAscii_shown c shown

theorem lowered_word (word : String) (whole : IsWord word) : IsWord (lowered word) := by
  have letters : ∀ text : List Char, (∀ c ∈ text, isBlank c = false) →
      ∀ small ∈ lower text, isBlank small = false := by
    intro text shown small member
    obtain ⟨c, among, made⟩ := List.mem_flatMap.mp member
    exact lower_shown c (shown c among) small (by simpa [lower] using made)
  have shown : ∀ small ∈ (lowered word).toList, isBlank small = false := fun small member =>
    letters word.toList whole.2 small (by simpa [lowered] using member)
  refine ⟨fun empty => ?_, shown⟩
  have nothing : lower word.toList = [] := by simpa [lowered] using empty
  cases text : word.toList with
  | nil => exact whole.1 (String.toList_eq_nil_iff.mp text)
  | cons c rest =>
    rw [text, lower_cons] at nothing
    exact lower_nonempty c (List.append_eq_nil_iff.mp nothing).1

theorem lowered_between (left right : String) :
    lowered (left ++ " " ++ right) = lowered left ++ " " ++ lowered right := by
  have blank : lower [' '] = [' '] := by decide
  apply String.toList_injective
  simp only [lowered, String.toList_append, lower_append, String.toList_ofList]
  rw [show " ".toList = [' '] from rfl, blank]

theorem lowered_joined (words : List String) :
    lowered (joined " " words) = joined " " (words.map lowered) := by
  induction words with
  | nil => rfl
  | cons first rest ih =>
    cases rest with
    | nil => rfl
    | cons second rest =>
      rw [Text.joined_cons_cons, lowered_between, ih]
      rfl

theorem normalize_eq (text : List Char) :
    normalize text = joined " " ((wordsOf (String.ofList text)).map lowered) := by
  rw [← lowered_joined, wordsOf, String.toList_ofList]
  rfl

theorem words_of_normalize (text : List Char) :
    wordsOf (normalize text) = (wordsOf (String.ofList text)).map lowered := by
  rw [normalize_eq, Text.words_of_joined]
  intro small member
  obtain ⟨word, among, rfl⟩ := List.mem_map.mp member
  exact lowered_word word (Text.words_are_words _ word among)

theorem normalize_normal (text : List Char) : IsNormal (normalize text) := by
  rw [IsNormal, words_of_normalize, normalize_eq]

theorem normalize_nonempty (text : List Char) (valid : isSequence text = true) :
    normalize text ≠ "" := by
  intro empty
  have same := words_of_normalize text
  rw [empty, Text.words_of_empty] at same
  have nonempty : Text.words text ≠ [] := by
    intro blank
    simp [isSequence, blank] at valid
  exact nonempty (by simpa [wordsOf] using same.symm)

end Keymap.Key
