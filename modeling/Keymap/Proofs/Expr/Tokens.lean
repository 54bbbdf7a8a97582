import Keymap.Proofs.Expr.Deriving
import Keymap.Proofs.Expr.Lexing

/-!
From texts to tokens. No token starts with a blank, so a text is lexed in one way only
(`lexes_unique`); the reader takes a token only where it is due, so the tokens of a text are read
as an expression exactly if the text is lexed and its tokens are derived (`run_lex_iff`).
-/

set_option autoImplicit false

namespace Keymap.Expr

section Blanks

theorem blank_of_space (c : Char) (space : isSpace c = true) : Text.isBlank c = true := by
  simp only [isSpace, Bool.or_eq_true, decide_eq_true_eq] at space
  rcases space with (((rfl | rfl) | rfl) | rfl) | rfl <;> rfl

/-- The codes of the blanks. -/
def blankCodes : List Nat :=
  [0x09, 0x0a, 0x0b, 0x0c, 0x0d, 0x1c, 0x1d, 0x1e, 0x1f, 0x20, 0x85, 0xa0, 0x1680, 0x2000, 0x2001,
    0x2002, 0x2003, 0x2004, 0x2005, 0x2006, 0x2007, 0x2008, 0x2009, 0x200a, 0x2028, 0x2029, 0x202f,
    0x205f, 0x3000]

theorem code_of_blank (c : Char) (blank : Text.isBlank c = true) : c.toNat ∈ blankCodes := by
  simp only [Text.isBlank, Bool.or_eq_true, Bool.and_eq_true, decide_eq_true_eq,
    beq_iff_eq] at blank
  simp only [blankCodes, List.mem_cons, List.not_mem_nil, or_false]
  omega

theorem blank_apart (c : Char) (blank : Text.isBlank c = true) :
    Text.isDigit c = false ∧ continuesName c = false := by
  have member := code_of_blank c blank
  have each : ∀ code ∈ blankCodes,
      Text.isDigit (Char.ofNat code) = false ∧ continuesName (Char.ofNat code) = false := by decide
  have same := each c.toNat member
  rwa [Char.ofNat_toNat] at same

/-- Words and numerals hold letters, digits and the marks of numerals only. -/
theorem symbol_or_string {terminal : Terminal} {part : List Char} {c : Char}
    (fits : terminal.Matches part) (member : c ∈ part) (noName : continuesName c = false)
    (noDigit : Text.isDigit c = false) (noMark : c ∉ ['.', 'e', 'E', '+', '-']) :
    (∃ symbol, terminal = .symbol symbol) ∨ terminal = .string := by
  have word (named : IsName part) : False := by
    obtain ⟨first, rest, rfl, starts, goesOn⟩ := named
    rcases List.mem_cons.mp member with rfl | member
    · rw [continuesName, starts] at noName
      cases noName
    · rw [goesOn c member] at noName
      cases noName
  cases terminal with
  | symbol mark => exact .inl ⟨mark, rfl⟩
  | keyword known =>
    obtain rfl : part = known.text := fits
    exact (word (keyword_isName known)).elim
  | name => exact (word fits).elim
  | numeral =>
    rcases numeral_chars fits c member with digit | mark
    · rw [noDigit] at digit
      cases digit
    · exact absurd mark noMark
  | string => exact .inr rfl

/-- Only strings hold blanks. -/
theorem blank_free {terminal : Terminal} {part : List Char} (fits : terminal.Matches part)
    (noString : terminal ≠ .string) : ∀ c ∈ part, Text.isBlank c = false := by
  intro c member
  refine Bool.eq_false_iff.mpr fun blank => ?_
  obtain ⟨noDigit, noName⟩ := blank_apart c blank
  have noMark : c ∉ ['.', 'e', 'E', '+', '-'] := by
    intro mark
    simp only [List.mem_cons, List.not_mem_nil, or_false] at mark
    rcases mark with rfl | rfl | rfl | rfl | rfl <;> cases blank
  rcases symbol_or_string fits member noName noDigit noMark with ⟨mark, rfl⟩ | rfl
  · obtain rfl : part = mark.text := fits
    have shown : mark.text.any Text.isBlank = false := by cases mark <;> rfl
    exact Bool.eq_false_iff.mp shown (List.any_eq_true.mpr ⟨c, member, blank⟩)
  · exact noString rfl

theorem quote_shown {quote : Char} (quotes : quote ∈ ['"', '\'', '\x60']) :
    Text.isBlank quote = false := by
  simp only [List.mem_cons, List.not_mem_nil, or_false] at quotes
  rcases quotes with rfl | rfl | rfl <;> rfl

theorem matches_some {terminal : Terminal} {text : List Char} (fits : terminal.Matches text) :
    text ≠ [] := by
  rintro rfl
  cases terminal with
  | symbol mark => cases mark <;> cases fits
  | keyword known => cases known <;> cases fits
  | name =>
    obtain ⟨_, _, same, _⟩ := fits
    cases same
  | numeral =>
    obtain ⟨_, _, same, _⟩ := numeral_head fits
    cases same
  | string =>
    obtain ⟨_, _, same, _⟩ := string_ends fits
    cases same

/-- No token starts with a blank. -/
theorem matches_head {terminal : Terminal} {text : List Char} (fits : terminal.Matches text) :
    ∃ c rest, text = c :: rest ∧ Text.isBlank c = false := by
  by_cases string : terminal = .string
  · subst string
    obtain ⟨quote, body, rfl, quotes⟩ := string_ends fits
    exact ⟨quote, _, rfl, quote_shown quotes⟩
  · obtain ⟨c, rest, rfl⟩ := List.exists_cons_of_ne_nil (matches_some fits)
    exact ⟨c, rest, rfl, blank_free fits string c List.mem_cons_self⟩

end Blanks

section Kinds

/-- What the first character of a token tells about it. -/
inductive Kind where
  | word
  | string
  | numeral
  | mark
deriving DecidableEq

def Terminal.kind : Terminal → Kind
  | .symbol _ => .mark
  | .keyword _ => .word
  | .name => .word
  | .numeral => .numeral
  | .string => .string

theorem string_of_kind {terminal : Terminal} (kind : terminal.kind = .string) :
    terminal = .string := by
  cases terminal with
  | string => rfl
  | _ => cases kind

def kindAt (context : Context) (c : Char) : Kind :=
  if startsName c then .word
  else if c ∈ ['"', '\'', '\x60'] then .string
  else if Text.isDigit c || (c = '.' && context = .operand) then .numeral
  else .mark

/-- Of the tokens that are due, all that start with one character are of one kind. -/
theorem kind_of_token {context : Context} {terminal : Terminal} {c : Char} {rest : List Char}
    (due : terminal.Due context) (fits : terminal.Matches (c :: rest)) :
    kindAt context c = terminal.kind := by
  have word (named : IsName (c :: rest)) : kindAt context c = .word := by
    obtain ⟨first, others, same, starts, _⟩ := named
    obtain ⟨rfl, _⟩ := List.cons.inj same
    exact if_pos starts
  cases terminal with
  | symbol mark =>
    obtain ⟨first, others, same, noName, noDigit, noString, point⟩ := symbol_head mark
    obtain ⟨rfl, _⟩ := List.cons.inj (same.symm.trans fits.symm)
    have noPoint : (decide (first = '.') && decide (context = .operand)) = false := by
      by_cases dot : first = '.'
      · obtain rfl := point dot
        cases context with
        | operand => simp [Terminal.Due] at due
        | operator => simp
        | member => simp
      · simp [dot]
    simp [kindAt, noName, noString, noDigit, noPoint, Terminal.kind]
  | keyword known => exact word ((show c :: rest = known.text from fits) ▸ keyword_isName known)
  | name => exact word fits
  | numeral =>
    cases context with
    | operator => cases due
    | member => cases due
    | operand =>
      obtain ⟨first, others, same, digit | rfl⟩ := numeral_head fits
      · obtain ⟨rfl, _⟩ := List.cons.inj same
        obtain ⟨noName, apart⟩ := digit_apart c digit
        have noString : c ∉ ['"', '\'', '\x60'] := by
          simp only [List.mem_cons, List.not_mem_nil, or_false, not_or] at apart ⊢
          exact ⟨apart.2.1, apart.2.2.1, apart.2.2.2.1⟩
        simp [kindAt, noName, noString, digit, Terminal.kind]
      · obtain ⟨rfl, _⟩ := List.cons.inj same
        rfl
  | string =>
    obtain ⟨quote, body, same, quotes⟩ := string_ends fits
    obtain ⟨rfl, _⟩ := List.cons.inj same
    simp only [List.mem_cons, List.not_mem_nil, or_false] at quotes
    rcases quotes with rfl | rfl | rfl <;> rfl

end Kinds

section Tokens

variable {context : Context} {text : List Char} {pieces : List Piece}

theorem Lexes.fits (lexes : Lexes context text pieces) :
    ∀ piece ∈ pieces, piece.terminal.Matches piece.text := by
  induction lexes with
  | nothing => exact nofun
  | blank _ _ ih => exact ih
  | piece leads _ ih => exact List.forall_mem_cons.mpr ⟨leads.fits, ih⟩

theorem Lexes.shown (lexes : Lexes context text pieces) (position : Position) :
    List.Forall₂ Shows pieces (lexFrom 0 context position text) := by
  induction lexes generalizing position with
  | nothing => exact .nil
  | blank space _ ih =>
    rw [lexFrom, if_pos space]
    exact ih _
  | @piece context piece rest pieces leads _ ih =>
    obtain ⟨terminal, part⟩ := piece
    obtain ⟨scanned, _⟩ := (scan_iff_leads rest).mp leads
    obtain ⟨c, more, same, shown⟩ := matches_head leads.fits
    dsimp only at same scanned ih ⊢
    subst same
    have noSpace : isSpace c = false := by
      refine Bool.eq_false_iff.mpr fun space => ?_
      rw [blank_of_space c space] at shown
      cases shown
    obtain ⟨later, skipped⟩ := lexFrom_skip more rest terminal.next (position.after c)
    rw [List.cons_append] at scanned ⊢
    rw [lexFrom, noSpace, scanned]
    refine .cons ⟨position, rfl⟩ ?_
    have tokens := ih later
    rwa [← skipped] at tokens

theorem lexes_blank_iff {c : Char} (space : isSpace c = true) (rest : List Char) :
    Lexes context (c :: rest) pieces ↔ Lexes context rest pieces := by
  refine ⟨fun lexes => ?_, .blank space⟩
  generalize whole : c :: rest = text at lexes
  cases lexes with
  | nothing => cases whole
  | blank _ more =>
    obtain ⟨rfl, rfl⟩ := List.cons.inj whole
    exact more
  | piece leads _ =>
    obtain ⟨d, letters, written, shown⟩ := matches_head leads.fits
    rw [written, List.cons_append] at whole
    obtain ⟨rfl, _⟩ := List.cons.inj whole
    rw [blank_of_space c space] at shown
    cases shown

/-- What a token leads is lexed with the token first. -/
theorem lexes_piece_iff {piece : Piece} {rest : List Char} (leads : Leads context piece rest) :
    Lexes context (piece.text ++ rest) pieces ↔
      ∃ others, pieces = piece :: others ∧ Lexes piece.terminal.next rest others := by
  constructor
  · intro lexes
    obtain ⟨c, letters, written, shown⟩ := matches_head leads.fits
    generalize whole : piece.text ++ rest = text at lexes
    cases lexes with
    | nothing =>
      rw [written] at whole
      cases whole
    | blank space _ =>
      rw [written, List.cons_append] at whole
      obtain ⟨rfl, _⟩ := List.cons.inj whole
      rw [blank_of_space c space] at shown
      cases shown
    | @piece _ first tail others leadsFirst more =>
      have found := ((scan_iff_leads tail).mp leadsFirst).1
      rw [← whole, ((scan_iff_leads rest).mp leads).1] at found
      obtain ⟨terminal, part⟩ := Prod.mk.inj (Option.some.inj found)
      obtain rfl : piece = first := congrArg₂ Piece.mk terminal part
      obtain rfl := List.append_cancel_left whole
      exact ⟨others, rfl, more⟩
  · rintro ⟨others, rfl, more⟩
    exact .piece leads more

/-- Each token is due after the one before it. -/
def AllDue (context : Context) : List Piece → Prop
  | [] => True
  | piece :: rest => piece.terminal.Due context ∧ AllDue piece.terminal.next rest

theorem lexes_of_shown (text : List Char) (context : Context) (position : Position)
    (pieces : List Piece) (shown : List.Forall₂ Shows pieces (lexFrom 0 context position text))
    (due : AllDue context pieces) : Lexes context text pieces := by
  cases text with
  | nil =>
    rw [lexFrom] at shown
    cases shown
    exact .nothing context
  | cons c rest =>
    rw [lexFrom] at shown
    split at shown
    · next space => exact .blank space (lexes_of_shown rest context _ pieces shown due)
    · split at shown
      · cases shown with
        | cons shows _ =>
          obtain ⟨_, same⟩ := shows
          cases same
      · next terminal part scanned =>
        cases shown with
        | @cons piece _ pieces _ shows more =>
          obtain ⟨_, same⟩ := shows
          obtain ⟨rfl, rfl, rfl⟩ := Token.mk.inj (Lexeme.token.inj same)
          obtain ⟨fits, ⟨tail, whole⟩, _⟩ := fits_of_scan scanned
          obtain ⟨d, letters, written, _⟩ := matches_head fits
          have leads : Leads context piece tail :=
            (scan_iff_leads tail).mpr ⟨by rw [whole, scanned], due.1⟩
          rw [written, List.cons_append] at whole
          obtain ⟨rfl, rfl⟩ := List.cons.inj whole
          rw [written] at more
          obtain ⟨later, skipped⟩ :=
            lexFrom_skip letters tail piece.terminal.next (position.after d)
          rw [List.length_cons, Nat.add_sub_cancel, skipped] at more
          have lexed := Lexes.piece leads (lexes_of_shown tail _ later pieces more due.2)
          rwa [written] at lexed
termination_by text.length

theorem shown_unique {others : List Piece} {lexemes : List Lexeme}
    (shown : List.Forall₂ Shows pieces lexemes) (also : List.Forall₂ Shows others lexemes) :
    pieces = others := by
  induction shown generalizing others with
  | nil =>
    cases also
    rfl
  | cons shows _ ih =>
    cases also with
    | cons showsAlso more =>
      obtain ⟨_, rfl⟩ := shows
      obtain ⟨_, same⟩ := showsAlso
      obtain ⟨terminal, text, _⟩ := Token.mk.inj (Lexeme.token.inj same)
      exact congrArg₂ List.cons (congrArg₂ Piece.mk terminal text) (ih more)

/-- A text is these tokens or others, not both. -/
theorem lexes_unique {others : List Piece} (lexes : Lexes context text pieces)
    (also : Lexes context text others) : pieces = others :=
  shown_unique (lexes.shown .start) (also.shown .start)

end Tokens

section Places

def Stage.context : Stage → Context
  | .operand _ => .operand
  | .opened _ => .operand
  | .complete _ _ => .operator
  | .member _ _ => .member

theorem stepOperand_due {stack : Stack} {piece : Piece} {next : Stage}
    (goes : stepOperand stack ⟨piece.terminal, piece.text, .start⟩ = some next) :
    piece.terminal.Due .operand ∧ next.context = piece.terminal.next := by
  obtain ⟨terminal, text⟩ := piece
  cases terminal with
  | symbol mark =>
    cases mark with
    | leftParen | leftBracket | bang | minus | plus =>
      cases goes
      exact ⟨by simp [Terminal.Due], rfl⟩
    | _ => cases goes
  | _ =>
    cases goes
    exact ⟨trivial, rfl⟩

theorem stepComplete_due {stack : Stack} {operand : Expr} {mark : Symbol} {next : Stage}
    (goes : stepComplete stack operand mark = some next) :
    (Terminal.symbol mark).Due .operator ∧ next.context = (Terminal.symbol mark).next := by
  cases mark with
  | bang | leftParen => cases goes
  | colon | comma | rightParen =>
    rw [stepComplete] at goes
    split at goes
    · cases goes
      exact ⟨due_operator (by decide), rfl⟩
    · cases goes
  | rightBracket =>
    rw [stepComplete] at goes
    split at goes
    · cases goes
      exact ⟨due_operator (by decide), rfl⟩
    · cases goes
      exact ⟨due_operator (by decide), rfl⟩
    · cases goes
  | _ =>
    cases goes
    exact ⟨due_operator (by decide), rfl⟩

/-- The reader takes only tokens that are due, and is then where the token leads. -/
theorem take_due {stage next : Stage} {piece : Piece} (goes : take stage piece = some next) :
    piece.terminal.Due stage.context ∧ next.context = piece.terminal.next := by
  obtain ⟨terminal, text⟩ := piece
  cases stage with
  | operand stack => exact stepOperand_due goes
  | opened stack =>
    by_cases ends : ∃ items outer, terminal = .symbol .rightBracket ∧ stack = .array items :: outer
    · obtain ⟨items, outer, rfl, rfl⟩ := ends
      cases goes
      exact ⟨by simp [Terminal.Due, Stage.context], rfl⟩
    · unfold take step at goes
      dsimp only at goes
      split at goes
      · next items outer => exact absurd ⟨items, outer, rfl, rfl⟩ ends
      · exact stepOperand_due goes
  | complete stack operand =>
    cases terminal with
    | symbol mark => exact stepComplete_due goes
    | _ => cases goes
  | member stack target =>
    cases terminal with
    | name =>
      cases goes
      exact ⟨rfl, rfl⟩
    | _ => cases goes

theorem allDue_of_advance {pieces : List Piece} {stage final : Stage}
    (reached : advance stage pieces = some final) : AllDue stage.context pieces := by
  induction pieces generalizing stage with
  | nil => trivial
  | cons piece rest ih =>
    rw [advance_cons, Option.bind_eq_some_iff] at reached
    obtain ⟨next, goes, reached⟩ := reached
    obtain ⟨due, leads⟩ := take_due goes
    exact ⟨due, leads ▸ ih reached⟩

end Places

/-- The tokens of a text are read as an expression exactly if the grammar derives it. -/
theorem run_lex_iff (text : List Char) (last : Position) (expr : Expr) :
    run last (.operand []) (lex text) = .ok expr ↔
      ∃ pieces, Lexes .operand text pieces ∧ Derives 0 pieces expr := by
  constructor
  · intro read
    obtain ⟨pieces, final, shown, reached, finished⟩ := (run_ok_iff _ _ _ _).mp read
    have lexes := lexes_of_shown text .operand .start pieces shown (allDue_of_advance reached)
    exact ⟨pieces, lexes, derives_of_advance pieces expr final lexes.fits reached finished⟩
  · rintro ⟨pieces, lexes, derives⟩
    exact run_derived pieces expr derives _ (lexes.shown .start) last

end Keymap.Expr
