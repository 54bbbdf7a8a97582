import Keymap.Text.Character

/-!
Cutting text: trimming blanks, the words between blanks, the pieces between marks, and joining
words again.
-/

set_option autoImplicit false

namespace Keymap.Text

def trimLeft (text : List Char) : List Char := text.dropWhile isBlank

def trim (text : List Char) : List Char := (trimLeft (trimLeft text).reverse).reverse

/-- The longest runs without a blank, in order. -/
def words : List Char → List (List Char)
  | [] => []
  | c :: rest =>
      if isBlank c then words rest
      else match rest.head?, words rest with
        | some next, word :: others =>
            if isBlank next then [c] :: word :: others else (c :: word) :: others
        | _, others => [c] :: others

/-- The pieces between the marks; one more than there are marks. -/
def splitOn (mark : Char) : List Char → List (List Char)
  | [] => [[]]
  | c :: rest =>
      if c = mark then [] :: splitOn mark rest
      else match splitOn mark rest with
        | piece :: others => (c :: piece) :: others
        | [] => [[c]]

theorem splitOn_ne_nil (mark : Char) (text : List Char) : splitOn mark text ≠ [] := by
  cases text with
  | nil => simp [splitOn]
  | cons c rest =>
    rw [splitOn]
    split
    · simp
    · split <;> simp

/-- Splits at the first occurrence of the mark: the text before it and the text after it. -/
def cutAt (mark : List Char) : List Char → Option (List Char × List Char)
  | [] => if mark = [] then some ([], []) else none
  | c :: rest =>
      if mark.isPrefixOf (c :: rest) then some ([], (c :: rest).drop mark.length)
      else (cutAt mark rest).map fun (before, after) => (c :: before, after)

def trimmed (text : String) : String := String.ofList (trim text.toList)

def wordsOf (text : String) : List String := (words text.toList).map String.ofList

def pieces (mark : Char) (text : String) : List String :=
  (splitOn mark text.toList).map String.ofList

def withoutBlanks (text : String) : String :=
  String.ofList (text.toList.filter fun c => !isBlank c)

/-- Lists in messages and guards are joined with a fixed separator. -/
def joined (separator : String) : List String → String
  | [] => ""
  | [word] => word
  | word :: others => word ++ separator ++ joined separator others

end Keymap.Text
