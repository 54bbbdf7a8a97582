import Keymap.Binding.Basic
import Keymap.Expr.Template
import Keymap.Proofs.Expr.Acceptance

/-!
What blanks mean. Two texts that are the same without their blanks have the same tokens as long as
the constants in them are the same (`alike_of_unspaced`): blanks between tokens change nothing, but
blanks in strings do, and so does a blank between an integer and a point. So expressions that differ
only in blanks are the same exactly if their constants are (`respaced_same_iff`).
-/

set_option autoImplicit false

namespace Keymap.Expr

section Constants

mutual

/-- The constants of an expression, from left to right. -/
def constants : Expr → List Constant
  | .constant value => [value]
  | .name _ => []
  | .member target _ => constants target
  | .index target key => constants target ++ constants key
  | .unary _ operand => constants operand
  | .binary _ left right => constants left ++ constants right
  | .conditional test whenTrue whenFalse =>
      constants test ++ (constants whenTrue ++ constants whenFalse)
  | .array items => itemsConstants items

def itemsConstants : List Expr → List Constant
  | [] => []
  | item :: rest => constants item ++ itemsConstants rest

end

/-- The constant that a token stands for. -/
def Piece.constant? (piece : Piece) : Option Constant :=
  match piece.terminal with
  | .numeral => some (.number (numeralValue piece.text))
  | .string => some (.text (stringContent piece.text))
  | .keyword known => some known.constant
  | _ => none

@[simp] theorem constant_mark (symbol : Symbol) : (Piece.mark symbol).constant? = none := rfl

@[simp] theorem constant_name (text : List Char) : (Piece.mk .name text).constant? = none := rfl

mutual

/-- The constants of an expression are those of its tokens. -/
theorem constants_of_derives : ∀ {level : Nat} {pieces : List Piece} {expr : Expr},
    Derives level pieces expr → expr.constants = pieces.filterMap Piece.constant?
  | _, _, _, .tighter derives => constants_of_derives derives
  | _, _, _, .conditional derivesTest derivesTrue derivesFalse => by
    simp [constants, List.filterMap_cons, constants_of_derives derivesTest,
      constants_of_derives derivesTrue, constants_of_derives derivesFalse]
  | _, _, _, .binary op derivesLeft derivesRight => by
    simp [constants, List.filterMap_cons, constants_of_derives derivesLeft,
      constants_of_derives derivesRight]
  | _, _, _, .unary op derives => by
    simp [constants, List.filterMap_cons, constants_of_derives derives]
  | _, _, _, .member _ derives => by
    simp [constants, List.filterMap_cons, constants_of_derives derives]
  | _, _, _, .index derives derivesKey => by
    simp [constants, List.filterMap_cons, constants_of_derives derives,
      constants_of_derives derivesKey]
  | _, _, _, .array lists => by
    simp [constants, List.filterMap_cons, constants_of_lists lists]
  | _, _, _, .group derives => by
    simp [List.filterMap_cons, constants_of_derives derives]
  | _, _, _, .numeral _ => rfl
  | _, _, _, .string _ => rfl
  | _, _, _, .keyword _ => rfl
  | _, _, _, .name _ => rfl

theorem constants_of_lists : ∀ {pieces : List Piece} {items : List Expr},
    Lists pieces items → itemsConstants items = pieces.filterMap Piece.constant?
  | _, _, .nothing => rfl
  | _, _, .last derives => by
    rw [itemsConstants, itemsConstants, constants_of_derives derives, List.append_nil]
  | _, _, .more derives lists _ => by
    simp [itemsConstants, List.filterMap_cons, constants_of_derives derives,
      constants_of_lists lists]

end

end Constants

section Unspaced

/-- A text without its blanks. -/
def unspaced (text : List Char) : List Char := text.filter fun c => !Text.isBlank c

theorem unspaced_append (front back : List Char) :
    unspaced (front ++ back) = unspaced front ++ unspaced back := List.filter_append _ _

theorem unspaced_of_free {part : List Char} (free : ∀ c ∈ part, Text.isBlank c = false) :
    unspaced part = part :=
  List.filter_eq_self.mpr fun c member => by rw [free c member, Bool.not_false]

theorem unspaced_token {terminal : Terminal} {part : List Char} (fits : terminal.Matches part)
    (noString : terminal ≠ .string) : unspaced part = part :=
  unspaced_of_free (blank_free fits noString)

theorem unspaced_cons {c : Char} (rest : List Char) (shown : Text.isBlank c = false) :
    unspaced (c :: rest) = c :: unspaced rest := by
  rw [unspaced, List.filter_cons_of_pos (by simp [shown]), unspaced]

/-- The first token of a text, and what the text is without its blanks. -/
theorem Lexes.first {context : Context} {text : List Char} {pieces : List Piece}
    (lexes : Lexes context text pieces) : (unspaced text = [] ∧ pieces = []) ∨
    ∃ piece rest others, pieces = piece :: others ∧ Leads context piece rest ∧
      Lexes piece.terminal.next rest others ∧
      unspaced text = unspaced piece.text ++ unspaced rest := by
  induction lexes with
  | nothing => exact .inl ⟨rfl, rfl⟩
  | @blank _ c rest _ space _ ih =>
    have same : unspaced (c :: rest) = unspaced rest :=
      List.filter_cons_of_neg (by simp [blank_of_space c space])
    rwa [same]
  | @piece _ piece rest others leads more _ =>
    exact .inr ⟨piece, rest, others, rfl, leads, more, unspaced_append _ _⟩

/-- What comes next is the first character of a token that is due. -/
theorem Lexes.next_due {context : Context} {text : List Char} {pieces : List Piece} {c : Char}
    {others : List Char} (lexes : Lexes context text pieces) (same : unspaced text = c :: others) :
    ∃ (terminal : Terminal) (letters : List Char), terminal.Due context ∧
      terminal.Matches (c :: letters) := by
  rcases lexes.first with ⟨empty, _⟩ | ⟨piece, rest, _, _, leads, _, whole⟩
  · rw [empty] at same
    cases same
  · obtain ⟨d, letters, written, shown⟩ := matches_head leads.fits
    rw [same, written, unspaced_cons _ shown] at whole
    obtain ⟨rfl, _⟩ := List.cons.inj whole
    exact ⟨piece.terminal, letters, leads.due, written ▸ leads.fits⟩

end Unspaced

section Numerals

variable {front back : List Char} {c : Char}

/-- A sign in a numeral comes after the letter of its exponent. -/
theorem numeral_sign (numeral : IsNumeral (front ++ c :: back)) (sign : c ∈ ['+', '-']) :
    ∃ mantissa letter, front = mantissa ++ [letter] ∧ letter ∈ ['e', 'E'] := by
  have noDigit : Text.isDigit c = false := by
    simp only [List.mem_cons, List.not_mem_nil, or_false] at sign
    rcases sign with rfl | rfl <;> decide
  have apart {digits : List Char} (each : ∀ d ∈ digits, Text.isDigit d = true) : c ∉ digits := by
    intro member
    rw [each c member] at noDigit
    cases noDigit
  obtain ⟨mantissa, exponent, whole, body, power⟩ := numeral
  have notInBody : c ∉ mantissa := by
    intro member
    rcases mantissa_chars body c member with digit | rfl
    · rw [digit] at noDigit
      cases noDigit
    · exact absurd sign (by decide)
  have member : c ∈ mantissa ++ exponent := whole ▸ List.mem_append_right front List.mem_cons_self
  cases power with
  | nothing => exact absurd (List.append_nil mantissa ▸ member) notInBody
  | @power letter marks digits letters signs held =>
    have notLetter : c ≠ letter := by
      rintro rfl
      simp only [List.mem_cons, List.not_mem_nil, or_false] at letters
      rcases letters with rfl | rfl <;> exact absurd sign (by decide)
    have own : c ∈ marks := by
      simpa [notInBody, notLetter, apart held.2] using member
    obtain rfl : marks = [c] := by
      simp only [List.mem_cons, List.not_mem_nil, or_false] at signs
      rcases signs with rfl | rfl | rfl
      · cases own
      · rw [List.mem_singleton.mp own]
      · rw [List.mem_singleton.mp own]
    have parts : front ++ c :: back = (mantissa ++ [letter]) ++ c :: digits := by
      simpa using whole
    have before : c ∉ mantissa ++ [letter] := by simp [notInBody, notLetter]
    obtain ⟨cut, _⟩ := (List.append_cons_inj_of_notMem before (apart held.2)).mp parts.symm
    exact ⟨mantissa, letter, cut.symm, letters⟩

/-- A point in a numeral comes after digits only. -/
theorem numeral_point (numeral : IsNumeral (front ++ '.' :: back)) :
    ∀ d ∈ front, Text.isDigit d = true := by
  have apart {digits : List Char} (each : ∀ d ∈ digits, Text.isDigit d = true) :
      '.' ∉ digits := fun member => absurd (each '.' member) (by decide)
  obtain ⟨mantissa, exponent, whole, body, power⟩ := numeral
  have notInPower : '.' ∉ exponent := by
    cases power with
    | nothing => exact List.not_mem_nil
    | @power letter marks digits letters signs held =>
      simp only [List.mem_cons, List.not_mem_nil, or_false] at letters signs
      have notLetter : '.' ≠ letter := by rcases letters with rfl | rfl <;> decide
      have notSign : '.' ∉ marks := by rcases signs with rfl | rfl | rfl <;> decide
      simp [notLetter, notSign, apart held.2]
  have member : '.' ∈ mantissa ++ exponent :=
    whole ▸ List.mem_append_right front List.mem_cons_self
  cases body with
  | whole held => simp [apart held.2, notInPower] at member
  | @pointed digits fraction held each =>
    rw [List.append_assoc, List.cons_append] at whole
    have behind : '.' ∉ fraction ++ exponent := by simp [apart each, notInPower]
    obtain ⟨rfl, _⟩ := (List.append_cons_inj_of_notMem (apart held.2) behind).mp whole.symm
    exact held.2
  | @fraction digits held =>
    have behind : '.' ∉ digits ++ exponent := by simp [apart held.2, notInPower]
    have parts : front ++ '.' :: back = [] ++ '.' :: (digits ++ exponent) := whole
    obtain ⟨rfl, _⟩ := (List.append_cons_inj_of_notMem List.not_mem_nil behind).mp parts.symm
    exact nofun

/-- No numeral ends in the letter of an exponent. -/
theorem numeral_letter {letter : Char} (numeral : IsNumeral (front ++ [letter]))
    (letters : letter ∈ ['e', 'E']) : False := by
  have noDigit : Text.isDigit letter = false ∧ letter ≠ '.' := by
    simp only [List.mem_cons, List.not_mem_nil, or_false] at letters
    rcases letters with rfl | rfl <;> decide
  have ends (own : List Char) {digits : List Char} (held : IsDigits digits)
      (same : front ++ [letter] = own ++ digits) : False := by
    obtain ⟨init, last, rfl⟩ : ∃ init last, digits = init ++ [last] :=
      ⟨_, _, (List.dropLast_append_getLast held.1).symm⟩
    rw [← List.append_assoc] at same
    obtain ⟨_, same⟩ := List.append_inj' same rfl
    obtain ⟨rfl, _⟩ := List.cons.inj same
    rw [held.2 letter (by simp)] at noDigit
    cases noDigit.1
  obtain ⟨mantissa, exponent, whole, body, power⟩ := numeral
  cases power with
  | @power first marks digits _ _ held =>
    exact ends (mantissa ++ first :: marks) held (by simpa using whole)
  | nothing =>
    rw [List.append_nil] at whole
    rcases mantissa_chars body letter (whole ▸ by simp) with digit | point
    · rw [digit] at noDigit
      cases noDigit.1
    · exact noDigit.2 point

end Numerals

section Ends

variable {context : Context} {piece other : Piece} {rest more : List Char} {pieces : List Piece}
  {c : Char} {part tail letters : List Char}

theorem digit_of_continuesName (goesOn : continuesName c = true) (noName : startsName c = false) :
    Text.isDigit c = true := by
  have range : 0x30 ≤ c.toNat ∧ c.toNat ≤ 0x39 := by
    simpa [continuesName, noName, Char.le_def, UInt32.le_iff_toNat_le] using goesOn
  simp [Text.isDigit, Text.digitValue?, range, show c.toNat < 0x80 by omega]

/-- What comes after an operand starts neither a word nor a numeral. -/
theorem operator_apart (lexes : Lexes .operator rest pieces) (next : unspaced rest = c :: tail) :
    startsName c = false ∧ Text.isDigit c = false := by
  obtain ⟨terminal, written, due, fits⟩ := lexes.next_due next
  have kind := kind_of_token due fits
  have mark : terminal.kind = .mark := by
    cases terminal with
    | symbol mark => rfl
    | _ => cases due
  rw [mark, kindAt] at kind
  split at kind
  · cases kind
  · next noName =>
    split at kind
    · cases kind
    · split at kind
      · cases kind
      · next noDigit =>
        rw [Bool.or_eq_true, not_or] at noDigit
        exact ⟨Bool.eq_false_iff.mpr noName, Bool.eq_false_iff.mpr noDigit.1⟩

theorem word_ends (lexes : Lexes .operator rest pieces) (next : unspaced rest = c :: tail)
    (nonempty : part ≠ []) (named : IsName (part ++ c :: letters)) : False := by
  obtain ⟨noName, noDigit⟩ := operator_apart lexes next
  obtain ⟨first, others, written, _, goesOn⟩ := named
  obtain ⟨d, inner, own⟩ := List.exists_cons_of_ne_nil nonempty
  rw [own, List.cons_append] at written
  obtain ⟨rfl, rfl⟩ := List.cons.inj written
  have digit := digit_of_continuesName (goesOn c (by simp)) noName
  rw [noDigit] at digit
  cases digit

/-- A numeral goes on at a point only, and is then another number. -/
theorem numeral_ends (lexes : Lexes .operator rest pieces) (next : unspaced rest = c :: tail)
    (own : IsNumeral part) (numeral : IsNumeral (part ++ c :: letters)) :
    numeralValue part ≠ numeralValue (part ++ c :: letters) := by
  obtain ⟨noName, noDigit⟩ := operator_apart lexes next
  rcases numeral_chars numeral c (by simp) with digit | mark
  · rw [noDigit] at digit
    cases digit
  · by_cases point : c = '.'
    · subst point
      have whole : part.all Text.isDigit = true :=
        List.all_eq_true.mpr (numeral_point numeral)
      rw [numeralValue, if_pos whole, numeralValue, if_neg (by simp [noDigit])]
      intro same
      cases same
    · have sign : c ∈ ['+', '-'] := by
        simp only [List.mem_cons, List.not_mem_nil, or_false] at mark ⊢
        rcases mark with rfl | rfl | rfl | mark
        · exact absurd rfl point
        · exact absurd noName (by decide)
        · exact absurd noName (by decide)
        · exact mark
      obtain ⟨mantissa, letter, same, power⟩ := numeral_sign numeral sign
      exact (numeral_letter (same ▸ own) power).elim

theorem mark_ends {symbol longer : Symbol} (due : (Terminal.symbol symbol).Due context)
    (lexes : Lexes (Terminal.symbol symbol).next rest pieces) (next : unspaced rest = c :: tail)
    (dueLonger : (Terminal.symbol longer).Due context)
    (goesOn : longer.text = symbol.text ++ c :: letters) : False := by
  cases context with
  | member => cases due
  | operand =>
    have single (mark : Symbol) (due : (Terminal.symbol mark).Due .operand) :
        mark.text.length = 1 := by
      simp only [Terminal.Due, List.mem_cons, List.not_mem_nil, or_false] at due
      rcases due with rfl | rfl | rfl | rfl | rfl | rfl <;> rfl
    have size := congrArg List.length goesOn
    rw [single longer dueLonger, List.length_append, single symbol due] at size
    exact absurd size (by simp)
  | operator =>
    -- No operand starts with an equals sign.
    obtain ⟨rfl, operand⟩ := symbol_goes_on due goesOn
    rw [operand] at lexes
    obtain ⟨terminal, written, dueNext, fits⟩ := lexes.next_due next
    have kind := kind_of_token dueNext fits
    cases terminal with
    | symbol mark =>
      simp only [Terminal.Due, List.mem_cons, List.not_mem_nil, or_false] at dueNext
      rcases dueNext with rfl | rfl | rfl | rfl | rfl | rfl <;> cases fits
    | _ => cases kind

theorem isName_of_word {terminal : Terminal} {part : List Char} (kind : terminal.kind = .word)
    (fits : terminal.Matches part) : IsName part := by
  cases terminal with
  | keyword known => exact (show part = known.text from fits) ▸ keyword_isName known
  | name => exact fits
  | _ => cases kind

/-- No token is over where another one of its kind goes on, unless they are constants that
differ. -/
theorem token_ends (leads : Leads context piece rest) (leadsOther : Leads context other more)
    (behind : Lexes piece.terminal.next rest pieces)
    (kind : piece.terminal.kind = other.terminal.kind) (noString : piece.terminal ≠ .string)
    (agree : ∀ one two, piece.constant? = some one → other.constant? = some two → one = two)
    (goesOn : other.text = piece.text ++ letters) (next : unspaced rest = letters ++ tail) :
    letters = [] := by
  obtain ⟨terminal, text⟩ := piece
  obtain ⟨terminalOther, longer⟩ := other
  have fits := leads.fits
  have fitsOther := leadsOther.fits
  have due := leads.due
  have dueOther := leadsOther.due
  dsimp only at *
  subst goesOn
  cases letters with
  | nil => rfl
  | cons c letters =>
    have nonempty := matches_some fits
    cases terminal with
    | symbol symbol =>
      cases terminalOther with
      | symbol mark =>
        obtain rfl : text = symbol.text := fits
        exact (mark_ends due behind next dueOther (Eq.symm fitsOther)).elim
      | _ => cases kind
    | keyword known =>
      exact (word_ends behind next nonempty (isName_of_word kind.symm fitsOther)).elim
    | name => exact (word_ends behind next nonempty (isName_of_word kind.symm fitsOther)).elim
    | numeral =>
      cases terminalOther with
      | numeral =>
        have differ := numeral_ends behind next fits fitsOther
        exact absurd (Constant.number.inj (agree _ _ rfl rfl)) differ
      | _ => cases kind
    | string => exact absurd rfl noString

end Ends

section Strings

/-- What a backslash and a character mean is the quote only if the character is. -/
theorem count_unescape {quote : Char} {body : List Char} (quotes : quote ∈ ['"', '\''])
    (held : IsQuotable quote body) : (unescape body).count quote = body.count quote := by
  simp only [List.mem_cons, List.not_mem_nil, or_false] at quotes
  have apart : '\\' ≠ quote := by rcases quotes with rfl | rfl <;> decide
  induction held with
  | nothing => rfl
  | @plain c rest _ unescaped _ ih =>
    rw [unescape_cons unescaped, List.count_cons, List.count_cons, ih]
  | @escaped c rest _ _ ih =>
    obtain ⟨meant, same, quoted⟩ : ∃ meant, unescape ('\\' :: c :: rest) = meant :: unescape rest ∧
        (meant == quote) = (c == quote) := by
      refine ⟨_, rfl, ?_⟩
      split
      all_goals rcases quotes with rfl | rfl <;> rfl
    rw [same, List.count_cons, List.count_cons_of_ne apart, List.count_cons, quoted, ih]

/-- A string holds its quote twice more often than its content does. -/
theorem count_quote {quote : Char} {body : List Char}
    (string : IsString (quote :: (body ++ [quote]))) :
    (quote :: (body ++ [quote])).count quote =
      (stringContent (quote :: (body ++ [quote]))).toList.count quote + 2 := by
  have inner : ((quote :: (body ++ [quote])).drop 1).dropLast = body := by
    rw [List.drop_succ_cons, List.drop_zero, List.dropLast_concat]
  have outer : (quote :: (body ++ [quote])).count quote = body.count quote + 2 := by simp
  rw [outer, stringContent, inner]
  generalize written : quote :: (body ++ [quote]) = text at string
  cases string with
  | @quoted own inside quotes held =>
    obtain ⟨rfl, same⟩ := List.cons.inj written
    obtain ⟨rfl, _⟩ := List.append_inj' same rfl
    have noRaw : quote ≠ '\x60' := by
      rintro rfl
      exact absurd quotes (by decide)
    simp [noRaw, count_unescape quotes held]
  | @raw inside held =>
    obtain ⟨rfl, same⟩ := List.cons.inj written
    simp

/-- Two texts that end in a character, hold it equally often and start a common text are equal. -/
theorem ended_cut {last : Char} {front back one other : List Char}
    (same : (one ++ [last]) ++ front = (other ++ [last]) ++ back)
    (often : (one ++ [last]).count last = (other ++ [last]).count last) :
    one ++ [last] = other ++ [last] ∧ front = back := by
  have longer {one other front : List Char} (often : one.count last = other.count last)
      (same : one = other ++ front) (ends : one.getLast? = some last) : front = [] := by
    cases front with
    | nil => rfl
    | cons c rest =>
      rw [same, List.count_append] at often
      rw [same, List.getLast?_append_cons] at ends
      have member : last ∈ c :: rest := List.mem_of_getLast? ends
      have counted := List.count_pos_iff.mpr member
      omega
  rcases List.append_eq_append_iff.mp same with ⟨extra, whole, rest⟩ | ⟨extra, whole, rest⟩
  · obtain rfl := longer often.symm whole List.getLast?_concat
    exact ⟨by simpa using whole.symm, by simpa using rest⟩
  · obtain rfl := longer often whole List.getLast?_concat
    exact ⟨by simpa using whole, by simpa using rest.symm⟩

/-- Strings with one content that start the same text without blanks are over at one place. -/
theorem strings_cut {one other front back : List Char} (string : IsString one)
    (stringOther : IsString other) (content : stringContent one = stringContent other)
    (same : unspaced one ++ front = unspaced other ++ back) : front = back := by
  have parts {quote : Char} (quotes : quote ∈ ['"', '\'', '\x60']) (body : List Char) :
      unspaced (quote :: (body ++ [quote])) = (quote :: unspaced body) ++ [quote] := by
    rw [unspaced_cons _ (quote_shown quotes), unspaced_append,
      unspaced_of_free (List.forall_mem_singleton.mpr (quote_shown quotes)), List.cons_append]
  obtain ⟨quote, body, rfl, quotes⟩ := string_ends string
  obtain ⟨quoteOther, bodyOther, rfl, quotesOther⟩ := string_ends stringOther
  obtain rfl : quote = quoteOther := by
    rw [parts quotes, parts quotesOther] at same
    exact (List.cons.inj same).1
  have often {inner : List Char} (string : IsString (quote :: (inner ++ [quote]))) :
      ((quote :: unspaced inner) ++ [quote]).count quote =
        (stringContent (quote :: (inner ++ [quote]))).toList.count quote + 2 := by
    rw [← parts quotes, unspaced, List.count_filter (by simp [quote_shown quotes]), count_quote string]
  rw [parts quotes, parts quotes] at same
  exact (ended_cut same (by rw [often string, often stringOther, content])).2

end Strings

section Tokens

/-- One token, or two strings with one content. -/
def Alike (piece other : Piece) : Prop :=
  piece = other ∨ piece.terminal = .string ∧ other.terminal = .string ∧
    stringContent piece.text = stringContent other.text

theorem alike_constant {piece other : Piece} (alike : Alike piece other) :
    piece.constant? = other.constant? := by
  rcases alike with rfl | ⟨string, stringOther, content⟩
  · rfl
  · simp [Piece.constant?, string, stringOther, content]

theorem alike_terminal {piece other : Piece} (alike : Alike piece other) :
    piece.terminal = other.terminal := by
  rcases alike with rfl | ⟨string, stringOther, _⟩
  · rfl
  · rw [string, stringOther]

variable {context : Context} {piece other : Piece} {rest more : List Char}
  {pieces others : List Piece}

/-- Tokens of one kind with one text are one token. -/
theorem leads_same (leads : Leads context piece rest) (leadsOther : Leads context other more)
    (kind : piece.terminal.kind = other.terminal.kind) (same : piece.text = other.text) :
    piece = other := by
  obtain ⟨terminal, text⟩ := piece
  obtain ⟨terminalOther, textOther⟩ := other
  obtain rfl : text = textOther := same
  have fits := leads.fits
  have fitsOther := leadsOther.fits
  cases terminal with
  | symbol symbol =>
    cases terminalOther with
    | symbol mark => rw [symbol_text_inj (Eq.trans (Eq.symm fits) fitsOther)]
    | _ => cases kind
  | keyword known =>
    cases terminalOther with
    | keyword other =>
      have found := (keyword_iff text known).mpr fits
      rw [(keyword_iff text other).mpr fitsOther] at found
      rw [Option.some.inj found]
    | name => exact absurd fits (leadsOther.unreserved known leads.due rfl)
    | _ => cases kind
  | name =>
    cases terminalOther with
    | keyword other => exact absurd fitsOther (leads.unreserved other leadsOther.due rfl)
    | name => rfl
    | _ => cases kind
  | numeral =>
    cases terminalOther with
    | numeral => rfl
    | _ => cases kind
  | string =>
    obtain rfl : terminalOther = .string := string_of_kind kind.symm
    rfl

/-- The first tokens of two texts that are the same without their blanks. -/
theorem first_alike (leads : Leads context piece rest) (leadsOther : Leads context other more)
    (behind : Lexes piece.terminal.next rest pieces)
    (behindOther : Lexes other.terminal.next more others)
    (same : unspaced piece.text ++ unspaced rest = unspaced other.text ++ unspaced more)
    (agree : (piece :: pieces).filterMap Piece.constant? =
      (other :: others).filterMap Piece.constant?) :
    Alike piece other ∧ unspaced rest = unspaced more := by
  have kind : piece.terminal.kind = other.terminal.kind := by
    obtain ⟨c, letters, written, shown⟩ := matches_head leads.fits
    obtain ⟨d, lettersOther, writtenOther, shownOther⟩ := matches_head leadsOther.fits
    rw [written, writtenOther, unspaced_cons _ shown, unspaced_cons _ shownOther] at same
    obtain ⟨rfl, _⟩ := List.cons.inj same
    exact (kind_of_token leads.due (written ▸ leads.fits)).symm.trans
      (kind_of_token leadsOther.due (writtenOther ▸ leadsOther.fits))
  have first : ∀ one two, piece.constant? = some one → other.constant? = some two →
      one = two := by
    intro one two own ownOther
    rw [List.filterMap_cons_some own, List.filterMap_cons_some ownOther] at agree
    exact (List.cons.inj agree).1
  by_cases string : piece.terminal = .string
  · have stringOther : other.terminal = .string := string_of_kind (by rw [← kind, string]; rfl)
    have content : stringContent piece.text = stringContent other.text :=
      Constant.text.inj (first _ _ (by simp [Piece.constant?, string])
        (by simp [Piece.constant?, stringOther]))
    have fits := leads.fits
    have fitsOther := leadsOther.fits
    rw [string] at fits
    rw [stringOther] at fitsOther
    exact ⟨.inr ⟨string, stringOther, content⟩, strings_cut fits fitsOther content same⟩
  · have noString : other.terminal ≠ .string := fun same =>
      string (string_of_kind (by rw [kind, same]; rfl))
    rw [unspaced_token leads.fits string, unspaced_token leadsOther.fits noString] at same
    rcases List.append_eq_append_iff.mp same with ⟨extra, goesOn, next⟩ | ⟨extra, goesOn, next⟩
    · obtain rfl := token_ends leads leadsOther behind kind string first goesOn next
      rw [List.append_nil] at goesOn
      exact ⟨.inl (leads_same leads leadsOther kind goesOn.symm), next⟩
    · obtain rfl := token_ends leadsOther leads behindOther kind.symm noString
        (fun one two own ownOther => (first two one ownOther own).symm) goesOn next
      rw [List.append_nil] at goesOn
      exact ⟨.inl (leads_same leads leadsOther kind goesOn), next.symm⟩

/-- Texts that are the same without their blanks and have the same constants have the same tokens,
up to how strings are written. -/
theorem alike_of_unspaced {text textOther : List Char} (lexes : Lexes context text pieces)
    (lexesOther : Lexes context textOther others) (same : unspaced text = unspaced textOther)
    (agree : pieces.filterMap Piece.constant? = others.filterMap Piece.constant?) :
    List.Forall₂ Alike pieces others := by
  induction lexes generalizing textOther others with
  | nothing =>
    rcases lexesOther.first with ⟨_, rfl⟩ | ⟨piece, rest, _, _, leads, _, whole⟩
    · exact .nil
    · obtain ⟨c, letters, written, shown⟩ := matches_head leads.fits
      rw [← same, written, unspaced_cons _ shown] at whole
      cases whole
  | @blank _ c rest _ space _ ih =>
    have dropped : unspaced (c :: rest) = unspaced rest :=
      List.filter_cons_of_neg (by simp [blank_of_space c space])
    exact ih lexesOther (dropped.symm.trans same) agree
  | @piece context piece rest pieces leads behind ih =>
    rw [unspaced_append] at same
    rcases lexesOther.first with
      ⟨empty, _⟩ | ⟨other, more, others, rfl, leadsOther, behindOther, whole⟩
    · obtain ⟨c, letters, written, shown⟩ := matches_head leads.fits
      rw [empty, written, unspaced_cons _ shown] at same
      cases same
    · rw [whole] at same
      obtain ⟨alike, later⟩ := first_alike leads leadsOther behind behindOther same agree
      rw [List.filterMap_cons, List.filterMap_cons, alike_constant alike] at agree
      rw [← alike_terminal alike] at behindOther
      refine .cons alike (ih behindOther later ?_)
      split at agree
      · exact agree
      · exact (List.cons.inj agree).2

end Tokens

section Trees

theorem take_alike {piece other : Piece} (alike : Alike piece other) (stage : Stage) :
    take stage piece = take stage other := by
  obtain ⟨terminal, text⟩ := piece
  obtain ⟨terminalOther, textOther⟩ := other
  rcases alike with same | ⟨string, stringOther, content⟩
  · rw [same]
  · dsimp only at string stringOther content
    subst string stringOther
    have leaf (stack : Stack) : stepOperand stack ⟨.string, text, .start⟩ =
        stepOperand stack ⟨.string, textOther, .start⟩ := by
      simp only [stepOperand, leaf?, content]
    cases stage with
    | operand stack => exact leaf stack
    | opened stack => exact leaf stack
    | complete stack operand => rfl
    | member stack target => rfl

theorem advance_alike {pieces others : List Piece} (alike : List.Forall₂ Alike pieces others)
    (stage : Stage) : advance stage pieces = advance stage others := by
  induction alike generalizing stage with
  | nil => rfl
  | @cons piece other pieces others same _ ih =>
    rw [advance_cons, advance_cons, take_alike same stage, funext ih]

theorem derives_alike {pieces others : List Piece} {expr other : Expr}
    (derives : Derives 0 pieces expr) (derivesOther : Derives 0 others other)
    (alike : List.Forall₂ Alike pieces others) : expr = other := by
  obtain ⟨final, read, finished⟩ := advance_derived derives
  obtain ⟨finalOther, readOther, finishedOther⟩ := advance_derived derivesOther
  rw [advance_alike alike, readOther] at read
  obtain rfl := Option.some.inj read
  exact Option.some.inj (finished.symm.trans finishedOther)

/-- Expressions whose texts differ only in blanks, and so have one id, are the same exactly if
their constants are, and then have the same value in every scope. -/
theorem respaced_same_iff (one other : String) (expr exprOther : Expr)
    (accepted : parse one.toList = .ok expr) (also : parse other.toList = .ok exprOther)
    (respaced : Text.withoutBlanks one = Text.withoutBlanks other) :
    (expr.constants = exprOther.constants ↔ expr = exprOther) ∧
      (expr.constants = exprOther.constants →
        ∀ scope, valueOf one scope = valueOf other scope) := by
  obtain ⟨pieces, lexes, derives, _⟩ := (parse_ok_iff _ _).mp accepted
  obtain ⟨others, lexesOther, derivesOther, _⟩ := (parse_ok_iff _ _).mp also
  have same : unspaced one.toList = unspaced other.toList := String.ofList_injective respaced
  have tree (agree : expr.constants = exprOther.constants) : expr = exprOther := by
    rw [constants_of_derives derives, constants_of_derives derivesOther] at agree
    exact derives_alike derives derivesOther (alike_of_unspaced lexes lexesOther same agree)
  refine ⟨⟨tree, fun same => same ▸ rfl⟩, fun agree scope => ?_⟩
  obtain rfl := tree agree
  rw [valueOf, valueOf, accepted, also]

/-- Blanks between tokens, and one on either side of a backslash. -/
theorem respaced_same :
    Text.withoutBlanks "a  ==\t'\\ x'" = Text.withoutBlanks "a==' \\x'" ∧
      ∀ scope, valueOf "a  ==\t'\\ x'" scope = valueOf "a==' \\x'" scope :=
  ⟨by decide, (respaced_same_iff "a  ==\t'\\ x'" "a==' \\x'"
    (.binary .equal (.name "a") (.constant (.text " x")))
    (.binary .equal (.name "a") (.constant (.text " x"))) rfl rfl (by decide)).2 rfl⟩

/-- A blank in a string is no part of the id, but of the meaning. -/
theorem respaced_string_differs :
    (Guard.ofText "a == 'x y'").id = (Guard.ofText "a == 'xy'").id ∧
      valueOf "a == 'x y'" [("a", .text "xy")] = .ok (.ok (.bool false)) ∧
      valueOf "a == 'xy'" [("a", .text "xy")] = .ok (.ok (.bool true)) :=
  ⟨congrArg Text.Digest.ofText (by decide), rfl, rfl⟩

end Trees

end Keymap.Expr
