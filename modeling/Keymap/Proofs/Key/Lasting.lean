import Keymap.Proofs.Key.Normal

/-!
Presses that stay presses in small letters. Keys are accepted as they are written but kept in
small letters, and the two agree but for names that are only known with their capitals and for the
dotted capital i, whose small form has two characters (`isPress_lower_iff`).
-/

set_option autoImplicit false

namespace Keymap.Text

theorem splitOn_mark (mark : Char) (rest : List Char) :
    splitOn mark (mark :: rest) = [] :: splitOn mark rest := by
  rw [splitOn, if_pos rfl]

theorem lowerAscii_cases (c : Char) :
    lowerAscii c = c ∨
      ∃ place < 26, c = Char.ofNat (65 + place) ∧ lowerAscii c = Char.ofNat (97 + place) := by
  by_cases capital : ('A' ≤ c && c ≤ 'Z') = true
  · refine .inr ⟨c.toNat - 65, ?_⟩
    have small : lowerAscii c = Char.ofNat (c.toNat + 32) := if_pos capital
    simp only [Bool.and_eq_true, decide_eq_true_eq, Char.le_def, UInt32.le_iff_toNat_le] at capital
    have low : 65 ≤ c.toNat := capital.1
    have high : c.toNat ≤ 90 := capital.2
    refine ⟨by omega, ?_, ?_⟩
    · rw [Nat.add_sub_cancel' low, Char.ofNat_toNat]
    · rw [small, show 97 + (c.toNat - 65) = c.toNat + 32 by omega]
  · exact .inl (if_neg capital)

theorem splitOn_other (mark c : Char) (rest : List Char) (other : c ≠ mark) (piece : List Char)
    (others : List (List Char)) (cut : splitOn mark rest = piece :: others) :
    splitOn mark (c :: rest) = (c :: piece) :: others := by
  rw [splitOn, if_neg other, cut]

/-- A text without the mark goes into the first piece. -/
theorem splitOn_append (mark : Char) (front rest : List Char) (free : mark ∉ front)
    (piece : List Char) (others : List (List Char)) (cut : splitOn mark rest = piece :: others) :
    splitOn mark (front ++ rest) = (front ++ piece) :: others := by
  induction front with
  | nil => exact cut
  | cons c front ih =>
    obtain ⟨other, free⟩ := not_or.mp (mt List.mem_cons.mpr free)
    exact splitOn_other mark c _ (Ne.symm other) _ others (ih free)

/-- Every character but the marks stands in one of the pieces. -/
theorem mem_splitOn (mark c : Char) (text : List Char) (member : c ∈ text) :
    c = mark ∨ ∃ piece ∈ splitOn mark text, c ∈ piece := by
  induction text with
  | nil => cases member
  | cons first rest ih =>
    obtain ⟨piece, others, cut⟩ := List.exists_cons_of_ne_nil (splitOn_ne_nil mark rest)
    by_cases marked : first = mark
    · subst marked
      rw [splitOn_mark]
      rcases List.mem_cons.mp member with same | later
      · exact .inl same
      · rcases ih later with same | ⟨other, among, inside⟩
        · exact .inl same
        · exact .inr ⟨other, .tail _ among, inside⟩
    · rw [splitOn_other mark first rest marked piece others cut]
      rcases List.mem_cons.mp member with rfl | later
      · exact .inr ⟨_, .head _, .head _⟩
      · rw [cut] at ih
        rcases ih later with same | ⟨other, among, inside⟩
        · exact .inl same
        · rcases List.mem_cons.mp among with rfl | behind
          · exact .inr ⟨_, .head _, .tail _ inside⟩
          · exact .inr ⟨other, .tail _ behind, inside⟩

theorem of_mem_splitOn (mark : Char) (text piece : List Char) (among : piece ∈ splitOn mark text)
    (c : Char) (inside : c ∈ piece) : c ∈ text := by
  induction text generalizing piece with
  | nil => simp_all [splitOn]
  | cons first rest ih =>
    obtain ⟨head, others, cut⟩ := List.exists_cons_of_ne_nil (splitOn_ne_nil mark rest)
    simp only [cut] at ih
    by_cases marked : first = mark
    · subst marked
      rw [splitOn_mark, cut] at among
      rcases List.mem_cons.mp among with rfl | behind
      · cases inside
      · exact .tail _ (ih piece behind inside)
    · rw [splitOn_other mark first rest marked head others cut] at among
      rcases List.mem_cons.mp among with rfl | behind
      · rcases List.mem_cons.mp inside with rfl | later
        · exact .head _
        · exact .tail _ (ih head (.head _) later)
      · exact .tail _ (ih piece (.tail _ behind) inside)

end Keymap.Text

namespace Keymap.Key

open Text (fold splitOn lowerAscii wordsOf joined)

def isDotted (c : Char) : Bool := c.toNat == 0x130

/-- Whether no character of a text is a dotted capital i. -/
def undotted (text : List Char) : Bool := text.all fun c => !isDotted c

/-- Names of places on the keyboard that are not known in small letters. -/
def casedNames : List String := placedNamedKeys ++ placedPadOperators

/-- Whether a press is still one in small letters. -/
def Lasting (press : List Char) : Prop :=
  undotted press ∧ ∀ name ∈ casedNames, (splitOn '+' press).getLast? ≠ some name.toList

instance (press : List Char) : Decidable (Lasting press) := inferInstanceAs (Decidable (_ ∧ _))

theorem lower_singleton (c : Char) (plain : isDotted c = false) :
    lower [c] = [if c.toNat = 0x212a then 'k' else lowerAscii c] := by
  have other : ¬ c.toNat = 0x130 := by simpa [isDotted] using plain
  simp only [lower, List.flatMap_cons, List.flatMap_nil, List.append_nil, if_neg other]
  split <;> rfl

theorem lower_small (c small : Char) (made : small ∈ lower [c]) : lower [small] = [small] := by
  simp only [lower, List.flatMap_cons, List.flatMap_nil, List.append_nil] at made
  split at made
  · simp only [List.mem_cons, List.not_mem_nil, or_false] at made
    rcases made with rfl | rfl <;> decide
  split at made
  · rw [List.mem_singleton.mp made]
    decide
  · next plain kelvin =>
    rw [List.mem_singleton.mp made]
    rcases Text.lowerAscii_cases c with same | ⟨place, inside, _, least⟩
    · rw [same]
      simp [lower, plain, kelvin, same]
    · have letters : ∀ place < 26,
          lower [Char.ofNat (97 + place)] = [Char.ofNat (97 + place)] := by decide
      rw [least, letters place inside]

theorem lower_lower (text : List Char) : lower (lower text) = lower text := by
  have still : ∀ smalls : List Char, (∀ small ∈ smalls, lower [small] = [small]) →
      lower smalls = smalls := by
    intro smalls each
    induction smalls with
    | nil => rfl
    | cons small rest ih =>
      obtain ⟨first, others⟩ := List.forall_mem_cons.mp each
      rw [lower_cons, first, ih others, List.singleton_append]
  refine still _ fun small member => ?_
  obtain ⟨c, _, made⟩ := List.mem_flatMap.mp member
  exact lower_small c small (by simpa [lower] using made)

theorem fold_small (c : Char) (plain : isDotted c = false) :
    (lower [c]).map fold = [fold c] := by
  rw [lower_singleton c plain, List.map_singleton]
  split
  · next kelvin => simp [fold, kelvin, show lowerAscii 'k' = 'k' by decide]
  · rcases Text.lowerAscii_cases c with same | ⟨place, inside, rfl, _⟩
    · rw [same]
    · have letters : ∀ place < 26, fold (lowerAscii (Char.ofNat (65 + place))) =
          fold (Char.ofNat (65 + place)) := by decide
      rw [letters place inside]

theorem fold_lower (text : List Char) (plain : undotted text = true) :
    (lower text).map fold = text.map fold := by
  induction text with
  | nil => rfl
  | cons c rest ih =>
    simp only [undotted, List.all_cons, Bool.and_eq_true, Bool.not_eq_true'] at plain
    rw [lower_cons, List.map_append, ih plain.2, fold_small c plain.1]
    rfl

theorem lower_mark (c : Char) (other : c ≠ '+') : '+' ∉ lower [c] := by
  simp only [lower, List.flatMap_cons, List.flatMap_nil, List.append_nil]
  split
  · decide
  split
  · decide
  · rcases Text.lowerAscii_cases c with same | ⟨place, inside, _, small⟩
    · simpa [same] using Ne.symm other
    · have letters : ∀ place < 26, '+' ≠ Char.ofNat (97 + place) := by decide
      simpa [small] using letters place inside

/-- Small letters are cut where the text was. -/
theorem splitOn_lower (text : List Char) :
    splitOn '+' (lower text) = (splitOn '+' text).map lower := by
  induction text with
  | nil => rfl
  | cons c rest ih =>
    by_cases mark : c = '+'
    · subst mark
      rw [lower_cons, show lower ['+'] = ['+'] by decide, List.singleton_append, Text.splitOn_mark,
        Text.splitOn_mark, ih]
      rfl
    · obtain ⟨piece, others, cut⟩ := List.exists_cons_of_ne_nil (Text.splitOn_ne_nil '+' rest)
      rw [lower_cons c rest, Text.splitOn_other '+' c rest mark piece others cut, List.map_cons,
        lower_cons c piece]
      exact Text.splitOn_append '+' (lower [c]) (lower rest) (lower_mark c mark) (lower piece)
        (others.map lower) (by rw [ih, cut, List.map_cons])

theorem isModifier_lower (name : List Char) (plain : undotted name = true) :
    isModifier (lower name) = isModifier name := by
  rw [isModifier, fold_lower name plain, isModifier]

theorem exactNames_split (name : String) (known : name ∈ exactNames) :
    (lower name.toList = name.toList ∧ name.toList.length = 1) ∨ name ∈ casedNames := by
  have single : ∀ name ∈ letters 'a' ++ digits.map toString ++ punctuation,
      lower name.toList = name.toList ∧ name.toList.length = 1 := by decide +kernel
  rw [exactNames, List.append_assoc, List.mem_append] at known
  exact known.imp_left (single name)

/-- Cased names are longer than one letter, their small forms are no cased names, and none of them
is known in any case. -/
theorem casedNames_apart : ∀ cased ∈ casedNames, undotted cased.toList = true ∧
    1 < (lower cased.toList).length ∧ lower cased.toList ≠ cased.toList ∧
    cased.toList.map fold ∉ foldedNames := by
  decide +kernel

theorem isKey_lower_cased (cased : String) (among : cased ∈ casedNames) :
    isKey (lower cased.toList) = false := by
  obtain ⟨plain, long, _, apart⟩ := casedNames_apart cased among
  have unknown : String.ofList (lower cased.toList) ∉ exactNames := by
    intro known
    rcases exactNames_split _ known with ⟨_, single⟩ | again
    · rw [String.toList_ofList] at single
      omega
    · have still := (casedNames_apart _ again).2.2.1
      rw [String.toList_ofList, lower_lower] at still
      exact still rfl
  simp [isKey, unknown, fold_lower _ plain, apart]

theorem isKey_lower_iff (name : List Char) (plain : undotted name = true)
    (accepted : isKey name = true) :
    isKey (lower name) = true ↔ ∀ cased ∈ casedNames, name ≠ cased.toList := by
  by_cases anyCase : name.map fold ∈ foldedNames
  · refine iff_of_true ?_ ?_
    · simp [isKey, fold_lower name plain, anyCase]
    · rintro cased among rfl
      exact (casedNames_apart cased among).2.2.2 anyCase
  · have known : String.ofList name ∈ exactNames := by simpa [isKey, anyCase] using accepted
    rcases exactNames_split _ known with ⟨small, single⟩ | among
    · rw [String.toList_ofList] at small single
      refine iff_of_true (by rwa [small]) ?_
      rintro cased among rfl
      have long := (casedNames_apart cased among).2.1
      rw [small] at long
      omega
    · refine iff_of_false ?_ fun each => each _ among (String.toList_ofList).symm
      have lost := isKey_lower_cased _ among
      rw [String.toList_ofList] at lost
      simp [lost]

theorem dot_free_of_fold (name : List Char) (names : List (List Char))
    (free : ∀ known ∈ names, '\u0307' ∉ known) (known : name.map fold ∈ names) :
    '\u0307' ∉ name := by
  intro member
  have dot : fold '\u0307' = '\u0307' := by decide
  exact free _ known (List.mem_map.mpr ⟨_, member, dot⟩)

/-- No name has the dot that stands over the small form of a dotted capital i. -/
theorem isKey_dot_free (name : List Char) (accepted : isKey name = true) : '\u0307' ∉ name := by
  have exactly : ∀ name ∈ exactNames, '\u0307' ∉ name.toList := by decide +kernel
  simp only [isKey, Bool.or_eq_true, List.contains_iff_mem] at accepted
  rcases accepted with known | known
  · simpa using exactly _ known
  · exact dot_free_of_fold name foldedNames (by decide +kernel) known

theorem isModifier_dot_free (name : List Char) (accepted : isModifier name = true) :
    '\u0307' ∉ name := by
  simp only [isModifier, List.contains_iff_mem] at accepted
  refine dot_free_of_fold name (modifiers.map String.toList) (by decide) ?_
  exact List.mem_map.mpr ⟨_, accepted, by simp⟩

theorem dot_of_dotted (text : List Char) (dotted : undotted text = false) :
    '\u0307' ∈ lower text := by
  obtain ⟨c, among, capital⟩ := List.all_eq_false.mp dotted
  refine List.mem_flatMap.mpr ⟨c, among, ?_⟩
  have code : c.toNat = 0x130 := by simpa [isDotted] using capital
  simp [code]

theorem isPress_iff (press : List Char) (front : List (List Char)) (last : List Char)
    (parts : splitOn '+' press = front ++ [last]) :
    isPress press = true ↔ front.all isModifier = true ∧ isKey last = true := by
  simp [isPress, parts]

theorem isPress_dot_free (press : List Char) (accepted : isPress press = true) :
    '\u0307' ∉ press := by
  intro member
  obtain ⟨front, last, parts⟩ := (List.eq_nil_or_concat (splitOn '+' press)).resolve_left
    (Text.splitOn_ne_nil '+' press)
  rw [List.concat_eq_append] at parts
  obtain ⟨modified, keyed⟩ := (isPress_iff press front last parts).mp accepted
  rcases Text.mem_splitOn '+' _ press member with same | ⟨piece, among, inside⟩
  · exact absurd same (by decide)
  · rw [parts, List.mem_append, List.mem_singleton] at among
    rcases among with before | rfl
    · exact isModifier_dot_free piece (List.all_eq_true.mp modified piece before) inside
    · exact isKey_dot_free piece keyed inside

/-- An accepted press is one in small letters just when it lasts. -/
theorem isPress_lower_iff (press : List Char) (accepted : isPress press = true) :
    isPress (lower press) = true ↔ Lasting press := by
  cases plain : undotted press with
  | false =>
    refine iff_of_false (fun still => ?_) (fun lasting => by simp [lasting.1] at plain)
    exact isPress_dot_free _ still (dot_of_dotted press plain)
  | true =>
    obtain ⟨front, last, parts⟩ := (List.eq_nil_or_concat (splitOn '+' press)).resolve_left
      (Text.splitOn_ne_nil '+' press)
    rw [List.concat_eq_append] at parts
    obtain ⟨modified, keyed⟩ := (isPress_iff press front last parts).mp accepted
    have small : splitOn '+' (lower press) = front.map lower ++ [lower last] := by
      rw [splitOn_lower, parts, List.map_append, List.map_singleton]
    have pieces : ∀ piece ∈ splitOn '+' press, undotted piece = true := fun piece among =>
      List.all_eq_true.mpr fun c inside =>
        List.all_eq_true.mp plain c (Text.of_mem_splitOn '+' press piece among c inside)
    have stillModified : (front.map lower).all isModifier = true := by
      refine List.all_eq_true.mpr (List.forall_mem_map.mpr fun piece before => ?_)
      rw [isModifier_lower piece (pieces piece (by simp [parts, before]))]
      exact List.all_eq_true.mp modified piece before
    rw [isPress_iff _ _ _ small, and_iff_right stillModified,
      isKey_lower_iff last (pieces last (by simp [parts])) keyed]
    simp [Lasting, plain, parts]

/-- The kept form of a sequence is its own. -/
theorem normalize_normalize (text : List Char) :
    normalize (normalize text).toList = normalize text := by
  have again (word : String) : lowered (lowered word) = lowered word := by
    rw [lowered, lowered, String.toList_ofList, lower_lower]
  rw [normalize_eq, String.ofList_toList, words_of_normalize, List.map_map, normalize_eq text]
  exact congrArg (joined " ") (List.map_congr_left fun word _ => again word)

theorem isSequence_iff (text : String) :
    isSequence text.toList = true ↔
      wordsOf text ≠ [] ∧ ∀ press ∈ wordsOf text, isPress press.toList = true := by
  simp [isSequence, wordsOf]

/-- The kept form of an accepted sequence is accepted just when all of its presses last. -/
theorem isSequence_normalize_iff (text : String) (accepted : isSequence text.toList = true) :
    isSequence (normalize text.toList).toList = true ↔
      ∀ press ∈ wordsOf text, Lasting press.toList := by
  obtain ⟨nonempty, each⟩ := (isSequence_iff text).mp accepted
  rw [isSequence_iff, words_of_normalize, String.ofList_toList,
    and_iff_right (by simpa using nonempty), List.forall_mem_map]
  refine forall₂_congr fun press among => ?_
  rw [lowered, String.toList_ofList, isPress_lower_iff _ (each press among)]

end Keymap.Key
