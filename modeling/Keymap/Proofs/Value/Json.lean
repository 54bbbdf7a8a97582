import Keymap.Proofs.Value.Quoted
import Keymap.Proofs.Text.Words
import Mathlib.Data.List.Basic

/-!
Compact JSON texts are their own end marks: what follows a value cannot be taken for a part of it
(`whole_append_inj`). So the text of a list settles the texts of its items, and the text of a
mapping those of its fields.
-/

set_option autoImplicit false

namespace Keymap

namespace Json

open Text (joined)

/-- The value at the start of a text: up to the comma or the closing bracket that is neither
between quotes nor between brackets. -/
def scan : Bool → Nat → List Char → List Char
  | _, _, [] => []
  | false, depth, c :: rest =>
      if c = '"' then c :: scan true depth rest
      else if c = '[' || c = '\x7b' then c :: scan false (depth + 1) rest
      else if c = ']' || c = '\x7d' then
        if depth = 0 then [] else c :: scan false (depth - 1) rest
      else if c = ',' && depth = 0 then []
      else c :: scan false depth rest
  | true, depth, '\\' :: c :: rest => '\\' :: c :: scan true depth rest
  | true, depth, c :: rest => c :: scan (c ≠ '"') depth rest

/-- A text that a scan passes as a whole, wherever it starts. -/
def Whole (text : List Char) : Prop :=
  ∀ depth rest, scan false depth (text ++ rest) = text ++ scan false depth rest

/-- A text that a scan passes as a whole inside of brackets. -/
def Inner (text : List Char) : Prop :=
  ∀ depth rest, scan false (depth + 1) (text ++ rest) = text ++ scan false (depth + 1) rest

theorem whole_append (front back : List Char) (first : Whole front) (later : Whole back) :
    Whole (front ++ back) := by
  intro depth rest
  rw [List.append_assoc, first, later, List.append_assoc]

theorem inner_append (front back : List Char) (first : Inner front) (later : Inner back) :
    Inner (front ++ back) := by
  intro depth rest
  rw [List.append_assoc, first, later, List.append_assoc]

theorem inner_of_whole (text : List Char) (whole : Whole text) : Inner text :=
  fun depth rest => whole (depth + 1) rest

theorem inner_comma : Inner [','] := by
  intro depth rest
  simp [scan]

theorem whole_of_inner (opening closing : Char) (text : List Char)
    (brackets : opening = '[' ∧ closing = ']' ∨ opening = '\x7b' ∧ closing = '\x7d')
    (inner : Inner text) : Whole (opening :: text ++ [closing]) := by
  intro depth rest
  have inside := inner depth (closing :: rest)
  rcases brackets with ⟨rfl, rfl⟩ | ⟨rfl, rfl⟩ <;> simp [scan, inside]

/-- The marks that give a text its structure. -/
def isMark (c : Char) : Bool :=
  c = '"' || c = '[' || c = ']' || c = '\x7b' || c = '\x7d' || c = ','

def Plain (text : List Char) : Prop := ∀ c ∈ text, isMark c = false

theorem plain_of_all (text : List Char) (all : (text.all fun c => !isMark c) = true) :
    Plain text := by
  simpa [Plain] using all

theorem whole_of_plain (text : List Char) (plain : Plain text) : Whole text := by
  induction text with
  | nil => exact fun _ _ => rfl
  | cons c text ih =>
    intro depth rest
    have first := plain c (.head _)
    have later := ih (fun other member => plain other (.tail _ member)) depth rest
    simp only [isMark, Bool.or_eq_false_iff, decide_eq_false_iff_not] at first
    simp [scan, first, later]

theorem hexDigit_plain : ∀ value < 16,
    Text.Digest.hexDigit value ≠ '"' ∧ Text.Digest.hexDigit value ≠ '\\' := by
  decide

theorem scan_escapeUnit (unit depth : Nat) (rest : List Char) :
    scan true depth (escapeUnit unit ++ rest) = escapeUnit unit ++ scan true depth rest := by
  have digit : ∀ value : Nat, Text.Digest.hexDigit (value % 16) ≠ '"' ∧
      Text.Digest.hexDigit (value % 16) ≠ '\\' :=
    fun value => hexDigit_plain _ (Nat.mod_lt _ (by omega))
  simp [escapeUnit, hexDigits_four, scan, digit]

theorem scan_escape (c : Char) (depth : Nat) (rest : List Char) :
    scan true depth (escape c ++ rest) = escape c ++ scan true depth rest := by
  simp only [escape]
  split
  · simp [scan]
  · next other =>
    simp only [Bool.or_eq_true, decide_eq_true_eq, not_or] at other
    repeat' split
    all_goals simp [scan, scan_escapeUnit, other]

theorem whole_string (content : String) : Whole (string content).toList := by
  intro depth rest
  have inside : ∀ word : List Char, scan true depth (word.flatMap escape ++ '"' :: rest) =
      word.flatMap escape ++ '"' :: scan false depth rest := by
    intro word
    induction word with
    | nil => simp [scan]
    | cons c word ih =>
      rw [List.flatMap_cons, List.append_assoc, scan_escape, ih, List.append_assoc]
  simp [string, scan, inside]

section Numbers

open Number (digitChars intText exponentText decimalText floatText)

theorem digit_plain (c : Char) (digit : c.isDigit = true) : isMark c = false := by
  have different : ∀ mark : Char, mark.isDigit = false → c ≠ mark := by
    rintro mark noDigit rfl
    rw [digit] at noDigit
    cases noDigit
  simp only [isMark, Bool.or_eq_false_iff, decide_eq_false_iff_not]
  exact ⟨⟨⟨⟨⟨different _ rfl, different _ rfl⟩, different _ rfl⟩, different _ rfl⟩,
    different _ rfl⟩, different _ rfl⟩

theorem plain_append (front back : List Char) :
    Plain (front ++ back) ↔ Plain front ∧ Plain back := by
  simp only [Plain, List.mem_append, or_imp, forall_and]

theorem plain_cons (c : Char) (text : List Char) :
    Plain (c :: text) ↔ isMark c = false ∧ Plain text := by
  simp only [Plain, List.mem_cons, or_imp, forall_and, forall_eq]

theorem plain_nil : Plain [] := by
  intro c member
  cases member

theorem plain_digits (value : Nat) : Plain (digitChars value) := fun c member =>
  digit_plain c (Nat.isDigit_of_mem_toDigits (by omega) (by omega) member)

theorem plain_zeros (count : Nat) : Plain (List.replicate count '0') := by
  intro c member
  rw [List.eq_of_mem_replicate member]
  decide

theorem plain_intText (value : Int) : Plain (intText value).toList := by
  unfold intText
  split
  · rw [String.toList_ofList, plain_cons]
    exact ⟨by decide, plain_digits _⟩
  · rw [String.toList_ofList]
    exact plain_digits _

theorem plain_exponentText (exponent : Int) : Plain (exponentText exponent) := by
  simp only [exponentText, plain_cons]
  constructor
  · split <;> decide
  · split
    · exact (plain_cons _ _).mpr ⟨by decide, plain_digits _⟩
    · exact plain_digits _

theorem plain_decimalText (decimal : Number.Decimal) : Plain (decimalText decimal) := by
  have digits := plain_digits decimal.digits
  have front : ∀ count, Plain ((digitChars decimal.digits).take count) :=
    fun count c member => digits c (List.mem_of_mem_take member)
  have back : ∀ count, Plain ((digitChars decimal.digits).drop count) :=
    fun count c member => digits c (List.mem_of_mem_drop member)
  have point : isMark '.' = false := by decide
  have zero : isMark '0' = false := by decide
  have power : isMark 'e' = false := by decide
  simp only [decimalText]
  repeat' split
  all_goals simp only [List.cons_append, plain_append, plain_cons, plain_nil, plain_zeros,
    plain_exponentText, digits, front, back, point, zero, power, and_self]

theorem plain_number (amount : Number) : Plain (amount.text jsonWords).toList := by
  cases amount with
  | int value => exact plain_intText value
  | float value =>
    have minus : isMark '-' = false := by decide
    have word : Plain "NaN".toList ∧ Plain "Infinity".toList ∧ Plain "0.0".toList :=
      ⟨plain_of_all _ (by decide), plain_of_all _ (by decide), plain_of_all _ (by decide)⟩
    simp only [Number.text, floatText, jsonWords]
    repeat' split
    all_goals simp only [String.toList_append, plain_append, String.toList_ofList,
      plain_decimalText, word, and_true]
    all_goals exact plain_of_all _ (by decide)

theorem number_nonempty (amount : Number) : (amount.text jsonWords).toList ≠ [] := by
  have digits : ∀ value, digitChars value ≠ [] := fun _ => Nat.toDigits_ne_nil
  cases amount with
  | int value =>
    simp only [Number.text, intText]
    split <;> simp [digits]
  | float value =>
    simp only [Number.text, floatText, jsonWords, decimalText]
    repeat' split
    all_goals simp

end Numbers

theorem enclose_compact (depth : Nat) (opening closing : String) (parts : List String) :
    enclose compact depth opening closing parts = opening ++ joined "," parts ++ closing := by
  unfold enclose
  cases parts with
  | nil => simp [joined]
  | cons part rest => rfl

theorem inner_joined (parts : List String) (whole : ∀ part ∈ parts, Whole part.toList) :
    Inner (joined "," parts).toList := by
  induction parts with
  | nil => exact fun _ _ => rfl
  | cons part rest ih =>
    have first := inner_of_whole _ (whole part (.head _))
    cases rest with
    | nil => exact first
    | cons next others =>
      have later := ih fun other member => whole other (.tail _ member)
      rw [Text.joined_cons_cons, String.toList_append, String.toList_append]
      exact inner_append _ _ (inner_append _ _ first inner_comma) later

theorem whole_field (name text : String) (whole : Whole text.toList) :
    Whole (string name ++ ":" ++ text).toList := by
  have colon : Whole ":".toList := whole_of_plain _ (plain_of_all _ (by decide))
  rw [String.toList_append, String.toList_append]
  exact whole_append _ _ (whole_append _ _ (whole_string name) colon) whole

mutual

/-- What is written for a value is whole: no scan stops inside of it. -/
theorem whole_write (depth : Nat) : (value : Value) → Whole (write compact depth value).toList
  | .undefined => by rw [write]; exact whole_string _
  | .null => by rw [write]; exact whole_of_plain _ (plain_of_all _ (by decide))
  | .bool true => by rw [write]; exact whole_of_plain _ (plain_of_all _ (by decide))
  | .bool false => by rw [write]; exact whole_of_plain _ (plain_of_all _ (by decide))
  | .number amount => by rw [write]; exact whole_of_plain _ (plain_number amount)
  | .text content => by rw [write]; exact whole_string content
  | .list items => by
      have inner := inner_joined _ (whole_writeItems (depth + 1) items)
      rw [write, enclose_compact, String.toList_append, String.toList_append]
      exact whole_of_inner '[' ']' _ (.inl ⟨rfl, rfl⟩) inner
  | .object fields => by
      have each := whole_writeFields (depth + 1) fields
      have inner := inner_joined ((inOrder compact (writeFields compact (depth + 1) fields)).map
          fun (name, text) => string name ++ ":" ++ text) (by
        intro part member
        obtain ⟨field, among, rfl⟩ := List.mem_map.mp member
        exact whole_field _ _ (each field ((Sorting.mem_sort _ _ _).mp among)))
      rw [write, enclose_compact, String.toList_append, String.toList_append]
      exact whole_of_inner '\x7b' '\x7d' _ (.inr ⟨rfl, rfl⟩) inner

theorem whole_writeItems (depth : Nat) : (items : List Value) →
    ∀ text ∈ writeItems compact depth items, Whole text.toList
  | [] => by intro text member; cases member
  | item :: rest => by
      intro text member
      rcases List.mem_cons.mp member with rfl | later
      · exact whole_write depth item
      · exact whole_writeItems depth rest text later

theorem whole_writeFields (depth : Nat) : (fields : List (String × Value)) →
    ∀ field ∈ writeFields compact depth fields, Whole field.2.toList
  | [] => by intro field member; cases member
  | (name, value) :: rest => by
      intro field member
      rcases List.mem_cons.mp member with rfl | later
      · exact whole_write depth value
      · exact whole_writeFields depth rest field later

end

theorem write_nonempty (depth : Nat) (value : Value) :
    (write compact depth value).toList ≠ [] := by
  cases value with
  | number amount =>
    rw [write]
    exact number_nonempty amount
  | bool flag => cases flag <;> simp [write]
  | list items => simp [write, enclose_compact]
  | object fields => simp [write, enclose_compact]
  | _ => simp [write, string]

/-- A rest that does not belong to the value before it. -/
def Ends (rest : List Char) : Prop := scan false 0 rest = []

theorem ends_comma (rest : List Char) : Ends (',' :: rest) := by simp [Ends, scan]

theorem ends_list (rest : List Char) : Ends (']' :: rest) := by simp [Ends, scan]

theorem ends_object (rest : List Char) : Ends ('\x7d' :: rest) := by simp [Ends, scan]

theorem whole_append_inj (left right leftRest rightRest : List Char)
    (leftWhole : Whole left) (rightWhole : Whole right)
    (leftEnds : Ends leftRest) (rightEnds : Ends rightRest)
    (same : left ++ leftRest = right ++ rightRest) : left = right ∧ leftRest = rightRest := by
  have scanned := congrArg (scan false 0) same
  rw [leftWhole, rightWhole, leftEnds, rightEnds, List.append_nil, List.append_nil] at scanned
  subst scanned
  exact ⟨rfl, List.append_cancel_left same⟩

/-- What follows a part of a text whose parts are joined by commas and closed. -/
def following (closing : Char) : List String → List Char
  | [] => [closing]
  | next :: others => ',' :: ((joined "," (next :: others)).toList ++ [closing])

section Joined

variable (closing : Char)

theorem joined_following (part : String) (rest : List String) :
    (joined "," (part :: rest)).toList ++ [closing] = part.toList ++ following closing rest := by
  cases rest with
  | nil => rfl
  | cons next others =>
    rw [Text.joined_cons_cons, following]
    simp

variable (closes : Ends [closing])

include closes

theorem following_ends (rest : List String) : Ends (following closing rest) := by
  cases rest with
  | nil => exact closes
  | cons next others => exact ends_comma _

theorem joined_taken (part : String) (rest : List String) (held : part.toList ≠ [])
    (whole : Whole part.toList) : (joined "," (part :: rest)).toList ++ [closing] ≠ [closing] := by
  intro alone
  rw [joined_following] at alone
  have scanned := congrArg (scan false 0) alone
  rw [whole, following_ends closing closes rest, List.append_nil, closes] at scanned
  exact held scanned

/-- Parts that are whole can be told apart again. -/
theorem joined_injective (other : closing ≠ ',') (left right : List String)
    (leftWhole : ∀ part ∈ left, Whole part.toList ∧ part.toList ≠ [])
    (rightWhole : ∀ part ∈ right, Whole part.toList ∧ part.toList ≠ [])
    (same : joined "," left = joined "," right) : left = right := by
  replace same : (joined "," left).toList ++ [closing] = (joined "," right).toList ++ [closing] :=
    by rw [same]
  induction left generalizing right with
  | nil =>
    cases right with
    | nil => rfl
    | cons part rest =>
      have first := rightWhole part (.head _)
      exact absurd same.symm (joined_taken closing closes part rest first.2 first.1)
  | cons part rest ih =>
    have first := leftWhole part (.head _)
    cases right with
    | nil => exact absurd same (joined_taken closing closes part rest first.2 first.1)
    | cons otherPart otherRest =>
      have otherFirst := rightWhole otherPart (.head _)
      -- The first parts end at the same mark, so they are equal, and so is what follows them.
      rw [joined_following, joined_following] at same
      obtain ⟨parts, tails⟩ := whole_append_inj _ _ _ _ first.1 otherFirst.1
        (following_ends closing closes rest) (following_ends closing closes otherRest) same
      rw [String.toList_inj.mp parts]
      cases rest with
      | nil =>
        cases otherRest with
        | nil => rfl
        | cons next others => exact absurd (List.cons.inj tails).1 other
      | cons next others =>
        cases otherRest with
        | nil => exact absurd (List.cons.inj tails).1.symm other
        | cons otherNext otherOthers =>
          have later := ih (otherNext :: otherOthers)
            (fun each member => leftWhole each (.tail _ member))
            (fun each member => rightWhole each (.tail _ member)) (List.cons.inj tails).2
          rw [later]

end Joined

mutual

theorem write_depth (depth : Nat) : (value : Value) →
    write compact depth value = render compact value
  | .undefined => rfl
  | .null => rfl
  | .bool true => rfl
  | .bool false => rfl
  | .number _ => rfl
  | .text _ => rfl
  | .list items => by
      rw [render, write, write, enclose_compact, enclose_compact, writeItems_compact (depth + 1),
        writeItems_compact (0 + 1)]
  | .object fields => by
      rw [render, write, write, enclose_compact, enclose_compact, writeFields_compact (depth + 1),
        writeFields_compact (0 + 1)]

theorem writeItems_compact (depth : Nat) : (items : List Value) →
    writeItems compact depth items = items.map (render compact)
  | [] => rfl
  | item :: rest => by
      rw [writeItems, write_depth depth item, writeItems_compact depth rest, List.map_cons]

theorem writeFields_compact (depth : Nat) : (fields : List (String × Value)) →
    writeFields compact depth fields =
      fields.map fun field => (field.1, render compact field.2)
  | [] => rfl
  | (name, value) :: rest => by
      rw [writeFields, write_depth depth value, writeFields_compact depth rest, List.map_cons]

end

theorem lookup_field (asked : String) (field : String × String)
    (rest : List (String × String)) :
    (field :: rest).lookup asked = if asked = field.1 then some field.2 else rest.lookup asked := by
  obtain ⟨name, text⟩ := field
  rw [List.lookup_cons]
  by_cases same : asked = name
  · rw [if_pos same, beq_iff_eq.mpr same]
  · rw [if_neg same, beq_eq_false_iff_ne.mpr same]

theorem lookup_insert_by_name (asked : String) (field : String × String)
    (fields : List (String × String)) :
    (Sorting.insert (fun left right => decide (left.1 ≤ right.1)) field fields).lookup asked =
      if asked = field.1 then some field.2 else fields.lookup asked := by
  induction fields with
  | nil => exact lookup_field asked field []
  | cons other rest ih =>
    unfold Sorting.insert
    split
    · exact lookup_field asked field (other :: rest)
    · next after =>
      rw [lookup_field, lookup_field, ih]
      by_cases here : asked = other.1
      · have apart : asked ≠ field.1 := by
          rintro rfl
          simp [← here] at after
        simp only [if_neg apart]
      · simp only [if_neg here]

/-- Sorting by name keeps the first of the fields of one name in front of the others. -/
theorem lookup_inOrder (asked : String) (fields : List (String × String)) :
    (inOrder compact fields).lookup asked = fields.lookup asked := by
  show (Sorting.sort (fun left right => decide (left.1 ≤ right.1)) fields).lookup asked = _
  induction fields with
  | nil => rfl
  | cons field rest ih => rw [Sorting.sort, lookup_insert_by_name, ih, lookup_field]

theorem lookup_written (asked : String) (fields : Fields) :
    (fields.map fun field => (field.1, render compact field.2)).lookup asked =
      (fields.get? asked).map (render compact) := by
  induction fields with
  | nil => rfl
  | cons field rest ih =>
    obtain ⟨name, value⟩ := field
    rw [List.map_cons, lookup_field, ih, Fields.get?]
    by_cases same : name = asked
    · rw [if_pos same, if_pos same.symm]
      rfl
    · rw [if_neg same, if_neg (Ne.symm same)]

theorem between_injective (opening closing left right : String)
    (same : opening ++ left ++ closing = opening ++ right ++ closing) : left = right := by
  have chars := congrArg String.toList same
  simp only [String.toList_append] at chars
  exact String.toList_inj.mp (List.append_cancel_left (List.append_cancel_right chars))

theorem render_list_text (items : List Value) : render compact (.list items) =
    "[" ++ joined "," (items.map (render compact)) ++ "]" := by
  rw [render, write, enclose_compact, writeItems_compact]

theorem render_list (left right : List Value)
    (same : render compact (.list left) = render compact (.list right)) :
    left.map (render compact) = right.map (render compact) := by
  have whole : ∀ (items : List Value), ∀ part ∈ items.map (render compact),
      Whole part.toList ∧ part.toList ≠ [] := by
    intro items part member
    obtain ⟨item, _, rfl⟩ := List.mem_map.mp member
    exact ⟨whole_write 0 item, write_nonempty 0 item⟩
  rw [render_list_text, render_list_text] at same
  exact joined_injective ']' (ends_list []) (by decide) _ _ (whole left) (whole right)
    (between_injective _ _ _ _ same)

def fieldTexts (fields : Fields) : List (String × String) :=
  inOrder compact (fields.map fun field => (field.1, render compact field.2))

def fieldText (field : String × String) : String := string field.1 ++ ":" ++ field.2

theorem render_object_text (fields : Fields) : render compact (.object fields) =
    "\x7b" ++ joined "," ((fieldTexts fields).map fieldText) ++ "\x7d" := by
  rw [render, write, enclose_compact, writeFields_compact]
  rfl

theorem fieldText_injective : Function.Injective fieldText := by
  rintro ⟨leftName, leftText⟩ ⟨rightName, rightText⟩ alike
  have chars := congrArg String.toList alike
  simp only [fieldText, String.toList_append, List.append_assoc] at chars
  obtain ⟨rfl, tails⟩ := string_append_inj _ _ _ _ chars
  rw [String.toList_inj.mp (List.append_cancel_left tails)]

theorem fieldTexts_whole (fields : Fields) (part : String)
    (member : part ∈ (fieldTexts fields).map fieldText) :
    Whole part.toList ∧ part.toList ≠ [] := by
  obtain ⟨field, among, rfl⟩ := List.mem_map.mp member
  obtain ⟨source, _, rfl⟩ := List.mem_map.mp ((Sorting.mem_sort _ _ _).mp among)
  exact ⟨whole_field _ _ (whole_write 0 source.2), by simp [fieldText, string]⟩

theorem render_object (left right : Fields)
    (same : render compact (.object left) = render compact (.object right)) (name : String) :
    (left.get? name).map (render compact) = (right.get? name).map (render compact) := by
  rw [render_object_text, render_object_text] at same
  have parts := joined_injective '\x7d' (ends_object []) (by decide) _ _
    (fieldTexts_whole left) (fieldTexts_whole right) (between_injective _ _ _ _ same)
  have fields := List.map_injective_iff.mpr fieldText_injective parts
  have found := congrArg (List.lookup name) fields
  rwa [fieldTexts, fieldTexts, lookup_inOrder, lookup_inOrder, lookup_written, lookup_written]
    at found

theorem render_texts (left right : List String)
    (same : render compact (.list (left.map .text)) = render compact (.list (right.map .text))) :
    left = right := by
  have texts := render_list _ _ same
  rw [List.map_map, List.map_map] at texts
  have apart : Function.Injective (render compact ∘ Value.text) := fun first second alike =>
    string_injective first second alike
  exact List.map_injective_iff.mpr apart texts

theorem render_flag (left right : Bool)
    (same : render compact (.bool left) = render compact (.bool right)) : left = right := by
  cases left <;> cases right <;> first | rfl | (revert same; decide)

/-- Only a text is written between quotes, but for the value that no document holds. -/
theorem text_of_render (value : Value) (content : String) (defined : content ≠ "undefined")
    (same : render compact value = render compact (.text content)) : value = .text content := by
  have quoted : ∃ rest, (render compact value).toList = '"' :: rest :=
    ⟨content.toList.flatMap escape ++ ['"'], by rw [same]; simp [render, write, string]⟩
  obtain ⟨rest, quoted⟩ := quoted
  cases value with
  | undefined => exact absurd (string_injective _ _ same).symm defined
  | text other => rw [string_injective _ _ same]
  | number amount =>
    have plain := plain_number amount '"' (by
      show '"' ∈ (render compact (.number amount)).toList
      rw [quoted]
      exact .head _)
    cases plain
  | bool flag => cases flag <;> simp [render, write] at quoted
  | null => simp [render, write] at quoted
  | list items => simp [render, write, enclose_compact] at quoted
  | object fields => simp [render, write, enclose_compact] at quoted

end Json

end Keymap
