import Keymap.Text.Words
import Mathlib.Data.List.Induction

/-!
Cutting into words and joining are inverse: a blank cuts a text in two (`words_of_between`), and
joined words are cut into the same words again (`words_of_joined`).
-/

set_option autoImplicit false

namespace Keymap.Text

theorem words_of_blank (c : Char) (rest : List Char) (blank : isBlank c = true) :
    words (c :: rest) = words rest := by
  simp [words, blank]

theorem words_of_shown (c : Char) (rest : List Char) (shown : isBlank c = false) :
    words (c :: rest) = match rest.head?, words rest with
      | some next, word :: others =>
          if isBlank next then [c] :: word :: others else (c :: word) :: others
      | _, others => [c] :: others := by
  rw [words]
  exact if_neg (by simp [shown])

theorem words_nonempty (c : Char) (rest : List Char) (shown : isBlank c = false) :
    words (c :: rest) ≠ [] := by
  rw [words_of_shown c rest shown]
  split
  · split <;> simp
  · simp

theorem words_append_blank (left right : List Char) (c : Char) (blank : isBlank c = true) :
    words (left ++ c :: right) = words left ++ words right := by
  induction left with
  | nil => simp [words, blank]
  | cons d left ih =>
    cases shown : isBlank d with
    | true => simpa [words, shown] using ih
    | false =>
      cases left with
      | nil =>
        cases after : words right <;> simp [words, shown, blank, after]
      | cons e left =>
        cases next : isBlank e with
        | true =>
          simp only [List.cons_append] at ih ⊢
          rw [words_of_shown d _ shown, words_of_shown d _ shown, ih]
          cases words (e :: left) <;> cases words right <;> simp [next]
        | false =>
          have held := words_nonempty e left next
          simp only [List.cons_append] at ih ⊢
          rw [words_of_shown d _ shown, words_of_shown d _ shown, ih]
          cases first : words (e :: left) with
          | nil => exact absurd first held
          | cons word others => simp [next]

theorem words_of_blanks (blanks : List Char) (each : ∀ c ∈ blanks, isBlank c = true) :
    words blanks = [] := by
  induction blanks with
  | nil => rfl
  | cons c rest ih =>
    rw [words_of_blank c rest (each c List.mem_cons_self)]
    exact ih fun d member => each d (List.mem_cons_of_mem c member)

theorem words_append_blanks (left blanks : List Char) (each : ∀ c ∈ blanks, isBlank c = true) :
    words (left ++ blanks) = words left := by
  cases blanks with
  | nil => simp
  | cons c rest =>
    rw [words_append_blank left rest c (each c List.mem_cons_self),
      words_of_blanks rest fun d member => each d (List.mem_cons_of_mem c member),
      List.append_nil]

theorem words_trim_left (text : List Char) : words (trimLeft text) = words text := by
  induction text with
  | nil => rfl
  | cons c rest ih =>
    cases blank : isBlank c with
    | true =>
      rw [words_of_blank c rest blank, ← ih]
      simp [trimLeft, blank]
    | false => simp [trimLeft, blank]

theorem words_trim (text : List Char) : words (trim text) = words text := by
  have split : trimLeft text = (trimLeft (trimLeft text).reverse).reverse ++
      ((trimLeft text).reverse.takeWhile isBlank).reverse := by
    rw [← List.reverse_append, trimLeft, trimLeft, List.takeWhile_append_dropWhile,
      List.reverse_reverse]
  have blanks : ∀ c ∈ ((trimLeft text).reverse.takeWhile isBlank).reverse, isBlank c = true := by
    intro c member
    exact (List.all_takeWhile (p := isBlank) (l := (trimLeft text).reverse)) |>
      List.all_eq_true.mp |> (· c (List.mem_reverse.mp member))
  calc
    words (trim text) = words (trimLeft text) := by
      rw [split, words_append_blanks _ _ blanks]
      rfl
    _ = words text := words_trim_left text

theorem mem_words (text word : List Char) (member : word ∈ words text) :
    word ≠ [] ∧ ∀ c ∈ word, isBlank c = false := by
  induction text generalizing word with
  | nil => simp [words] at member
  | cons c rest ih =>
    cases shown : isBlank c with
    | true =>
      rw [words_of_blank c rest shown] at member
      exact ih word member
    | false =>
      rw [words_of_shown c rest shown] at member
      split at member
      · next next first others _ cut =>
        have kept := ih first (cut ▸ List.mem_cons_self)
        have later := fun other among => ih other (cut ▸ List.mem_cons_of_mem first among)
        split at member
        · rcases List.mem_cons.mp member with rfl | member
          · simp [shown]
          · rcases List.mem_cons.mp member with rfl | member
            · exact kept
            · exact later word member
        · rcases List.mem_cons.mp member with rfl | member
          · refine ⟨List.cons_ne_nil c first, ?_⟩
            intro d among
            rcases List.mem_cons.mp among with rfl | among
            · exact shown
            · exact kept.2 d among
          · exact later word member
      · rcases List.mem_cons.mp member with rfl | member
        · simp [shown]
        · exact ih word member

theorem words_of_word (word : List Char) (held : word ≠ [])
    (shown : ∀ c ∈ word, isBlank c = false) : words word = [word] := by
  induction word with
  | nil => exact absurd rfl held
  | cons c rest ih =>
    have first := shown c List.mem_cons_self
    cases rest with
    | nil => simp [words, first]
    | cons d rest =>
      have later := ih (List.cons_ne_nil d rest) fun e member =>
        shown e (List.mem_cons_of_mem c member)
      have second := shown d (List.mem_cons_of_mem c List.mem_cons_self)
      rw [words_of_shown c _ first, later]
      simp [second]

/-- A text of its own between blanks. -/
def IsWord (text : String) : Prop := text ≠ "" ∧ ∀ c ∈ text.toList, isBlank c = false

/-- Words with single blanks between them. -/
def IsNormal (text : String) : Prop := joined " " (wordsOf text) = text

instance (text : String) : Decidable (IsNormal text) := inferInstanceAs (Decidable (_ = _))

theorem words_are_words (text word : String) (member : word ∈ wordsOf text) : IsWord word := by
  obtain ⟨letters, among, rfl⟩ := List.mem_map.mp member
  have kept := mem_words text.toList letters among
  refine ⟨?_, ?_⟩
  · intro empty
    exact kept.1 (by simpa using congrArg String.toList empty)
  · intro c letter
    exact kept.2 c (by simpa using letter)

theorem words_of_one_word (word : String) (single : IsWord word) : wordsOf word = [word] := by
  have held : word.toList ≠ [] := by
    intro empty
    exact single.1 (String.toList_eq_nil_iff.mp empty)
  simp [wordsOf, words_of_word word.toList held single.2]

theorem words_of_empty : wordsOf "" = [] := by decide

theorem words_of_trimmed (text : String) : wordsOf (trimmed text) = wordsOf text := by
  simp [wordsOf, trimmed, words_trim]

theorem words_of_between (left right : String) :
    wordsOf (left ++ " " ++ right) = wordsOf left ++ wordsOf right := by
  have letters : (left ++ " " ++ right).toList = left.toList ++ ' ' :: right.toList := by simp
  rw [wordsOf, letters, words_append_blank _ _ _ (by decide), List.map_append]
  rfl

theorem joined_cons_cons (separator first second : String) (rest : List String) :
    joined separator (first :: second :: rest) =
      first ++ separator ++ joined separator (second :: rest) := rfl

theorem joined_concat (separator word : String) (others : List String) (nonempty : others ≠ []) :
    joined separator (others ++ [word]) = joined separator others ++ separator ++ word := by
  induction others with
  | nil => exact absurd rfl nonempty
  | cons first rest ih =>
    cases rest with
    | nil => rfl
    | cons second rest =>
      have later := ih (List.cons_ne_nil second rest)
      simp only [List.cons_append] at later ⊢
      rw [joined_cons_cons, later, joined_cons_cons]
      simp only [String.append_assoc]

theorem words_of_joined (tokens : List String) (each : ∀ token ∈ tokens, IsWord token) :
    wordsOf (joined " " tokens) = tokens := by
  induction tokens using List.reverseRecOn with
  | nil => exact words_of_empty
  | append_singleton front last ih =>
    have single := words_of_one_word last (each last (by simp))
    by_cases first : front = []
    · subst first
      simpa [joined] using single
    · rw [joined_concat " " last front first, words_of_between, single,
        ih fun token member => each token (List.mem_append_left _ member)]

theorem joined_words_injective (left right : List String)
    (leftWords : ∀ token ∈ left, IsWord token) (rightWords : ∀ token ∈ right, IsWord token)
    (same : joined " " left = joined " " right) : left = right := by
  rw [← words_of_joined left leftWords, same, words_of_joined right rightWords]

theorem joined_words_nonempty (tokens : List String) (each : ∀ token ∈ tokens, IsWord token)
    (nonempty : tokens ≠ []) : joined " " tokens ≠ "" := by
  intro empty
  have cut := words_of_joined tokens each
  rw [empty, words_of_empty] at cut
  exact nonempty cut.symm

end Keymap.Text
