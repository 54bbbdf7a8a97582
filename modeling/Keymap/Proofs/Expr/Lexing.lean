import Keymap.Proofs.Expr.Grammar

/-!
Taking a text apart agrees with the forms of its tokens: the scanner finds a token exactly where
it is the longest that is due (`scan_iff_leads`).
-/

set_option autoImplicit false

namespace Keymap.Expr

open Keymap.Text (isDigit)

section Runs

variable {holds : Char → Bool} {own tail text : List Char}

theorem takeWhile_exact (all : ∀ c ∈ own, holds c = true)
    (stops : ∀ c, tail.head? = some c → holds c = false) :
    (own ++ tail).takeWhile holds = own := by
  rw [List.takeWhile_append_of_pos all]
  cases tail with
  | nil => rw [List.takeWhile_nil, List.append_nil]
  | cons c rest => rw [List.takeWhile_cons_of_neg (by simp [stops c rfl]), List.append_nil]

/-- Every text starts with its longest run. -/
theorem exists_run (holds : Char → Bool) (text : List Char) : ∃ own tail, text = own ++ tail ∧
    (∀ c ∈ own, holds c = true) ∧ ∀ c, tail.head? = some c → holds c = false := by
  induction text with
  | nil => exact ⟨[], [], rfl, nofun, nofun⟩
  | cons c rest ih =>
    cases held : holds c with
    | true =>
      obtain ⟨own, tail, rfl, all, stops⟩ := ih
      exact ⟨c :: own, tail, rfl, List.forall_mem_cons.mpr ⟨held, all⟩, stops⟩
    | false =>
      refine ⟨[], c :: rest, rfl, nofun, fun d first => ?_⟩
      cases first
      exact held

/-- A run at the start of a text is no longer than the longest. -/
theorem length_le_takeWhile (all : ∀ c ∈ own, holds c = true) (leads : own <+: text) :
    own.length ≤ (text.takeWhile holds).length := by
  obtain ⟨tail, rfl⟩ := leads
  rw [List.takeWhile_append_of_pos all, List.length_append]
  exact Nat.le_add_right _ _

theorem holds_of_mem_takeWhile (c : Char) (member : c ∈ text.takeWhile holds) : holds c = true :=
  List.all_eq_true.mp List.all_takeWhile c member

end Runs

section Characters

theorem startsName_range (c : Char) (starts : startsName c = true) :
    (0x61 ≤ c.toNat ∧ c.toNat ≤ 0x7a) ∨ (0x41 ≤ c.toNat ∧ c.toNat ≤ 0x5a) ∨
      c = '_' ∨ c = '$' := by
  simpa [startsName, Char.le_def, UInt32.le_iff_toNat_le, or_assoc] using starts

theorem digit_range (c : Char) (digit : isDigit c = true) :
    (0x30 ≤ c.toNat ∧ c.toNat ≤ 0x39) ∨ 0x80 ≤ c.toNat := by
  rw [isDigit, Text.digitValue?] at digit
  split at digit
  · split at digit
    · next _ bounds => exact .inl (by simpa using bounds)
    · cases digit
  · next beyond => exact .inr (Nat.not_lt.mp beyond)

/-- A digit starts neither a name nor a string. -/
theorem digit_apart (c : Char) (digit : isDigit c = true) :
    startsName c = false ∧ c ∉ ['.', '"', '\'', '\x60', 'e', 'E', '+', '-'] := by
  have range := digit_range c digit
  constructor
  · refine Bool.eq_false_iff.mpr fun starts => ?_
    rcases startsName_range c starts with within | within | rfl | rfl
    · omega
    · omega
    · exact absurd range (by decide)
    · exact absurd range (by decide)
  · intro member
    simp only [List.mem_cons, List.not_mem_nil, or_false] at member
    rcases member with rfl | rfl | rfl | rfl | rfl | rfl | rfl | rfl <;>
      exact absurd range (by decide)

end Characters

section Strings

theorem stringPart_quotable {quote : Char} {body : List Char} (escapes : quote ≠ '\\')
    (held : IsQuotable quote body) (tail : List Char) :
    stringPart quote (body ++ quote :: tail) = some (body ++ [quote]) := by
  induction held with
  | nothing => cases tail <;> simp [stringPart]
  | @plain c rest inside unescaped _ ih =>
    obtain ⟨d, more, goesOn⟩ : ∃ d more, rest ++ quote :: tail = d :: more :=
      List.exists_cons_of_ne_nil (by simp)
    rw [List.cons_append, goesOn, stringPart, if_neg inside, if_neg unescaped, ← goesOn, ih]
    rfl
  | @escaped c rest inLine _ ih =>
    rw [List.cons_append, List.cons_append, stringPart, if_neg escapes.symm, if_pos rfl,
      if_neg inLine, ih]
    rfl

theorem quotable_of_stringPart {quote : Char} {text part : List Char}
    (found : stringPart quote text = some part) :
    ∃ body, part = body ++ [quote] ∧ IsQuotable quote body ∧ part <+: text := by
  fun_induction stringPart quote text generalizing part with
  | case1 => cases found
  | case2 =>
    cases found
    exact ⟨[], rfl, .nothing, List.prefix_rfl⟩
  | case3 => cases found
  | case4 =>
    cases found
    exact ⟨[], rfl, .nothing, by simp⟩
  | case5 => cases found
  | case6 d rest inLine _ ih =>
    obtain ⟨inner, read, rfl⟩ := Option.map_eq_some_iff.mp found
    obtain ⟨body, rfl, held, leads⟩ := ih read
    exact ⟨'\\' :: d :: body, rfl, .escaped inLine held, by simpa using leads⟩
  | case7 c d rest inside unescaped ih =>
    obtain ⟨inner, read, rfl⟩ := Option.map_eq_some_iff.mp found
    obtain ⟨body, rfl, held, leads⟩ := ih read
    exact ⟨c :: body, rfl, .plain inside unescaped held, by simpa using leads⟩

theorem rawStringPart_raw {body : List Char} (held : '\x60' ∉ body) (tail : List Char) :
    rawStringPart (body ++ '\x60' :: tail) = some (body ++ ['\x60']) := by
  induction body with
  | nil => rfl
  | cons c rest ih =>
    rw [List.mem_cons, not_or] at held
    rw [List.cons_append, rawStringPart, if_neg (Ne.symm held.1), ih held.2]
    rfl

theorem raw_of_rawStringPart {text part : List Char} (found : rawStringPart text = some part) :
    ∃ body, part = body ++ ['\x60'] ∧ '\x60' ∉ body ∧ part <+: text := by
  induction text generalizing part with
  | nil => cases found
  | cons c rest ih =>
    rw [rawStringPart] at found
    split at found
    · next closes =>
      cases found
      exact ⟨[], by rw [closes]; rfl, List.not_mem_nil, by simp⟩
    · next inside =>
      obtain ⟨inner, read, rfl⟩ := Option.map_eq_some_iff.mp found
      obtain ⟨body, rfl, held, leads⟩ := ih read
      exact ⟨c :: body, rfl, by simp [Ne.symm inside, held], by simpa using leads⟩

/-- A string is over at its closing quote, whatever follows. -/
theorem string_of_isString {part : List Char} (string : IsString part) (tail : List Char) :
    string? (part ++ tail) = some part := by
  cases string with
  | @quoted quote body quotes held =>
    simp only [List.mem_cons, List.not_mem_nil, or_false] at quotes
    rcases quotes with rfl | rfl <;>
      simp [string?, List.append_assoc, stringPart_quotable (by decide) held]
  | raw held => simp [string?, List.append_assoc, rawStringPart_raw held]

theorem isString_of_string {text part : List Char} (found : string? text = some part) :
    IsString part ∧ part <+: text := by
  unfold string? at found
  split at found
  · obtain ⟨inner, read, rfl⟩ := Option.map_eq_some_iff.mp found
    obtain ⟨body, rfl, held, leads⟩ := quotable_of_stringPart read
    exact ⟨.quoted (by decide) held, by simpa using leads⟩
  · obtain ⟨inner, read, rfl⟩ := Option.map_eq_some_iff.mp found
    obtain ⟨body, rfl, held, leads⟩ := quotable_of_stringPart read
    exact ⟨.quoted (by decide) held, by simpa using leads⟩
  · obtain ⟨inner, read, rfl⟩ := Option.map_eq_some_iff.mp found
    obtain ⟨body, rfl, held, leads⟩ := raw_of_rawStringPart read
    exact ⟨.raw held, by simpa using leads⟩
  · cases found

theorem string_none (c : Char) (rest : List Char) (other : c ∉ ['"', '\'', '\x60']) :
    string? (c :: rest) = none := by
  unfold string?
  split
  · next same => exact absurd (List.cons.inj same).1 (by rintro rfl; simp at other)
  · next same => exact absurd (List.cons.inj same).1 (by rintro rfl; simp at other)
  · next same => exact absurd (List.cons.inj same).1 (by rintro rfl; simp at other)
  · rfl

/-- A string starts and ends with the same quote. -/
theorem string_ends {part : List Char} (string : IsString part) :
    ∃ quote body, part = quote :: (body ++ [quote]) ∧ quote ∈ ['"', '\'', '\x60'] := by
  cases string with
  | @quoted quote body quotes _ => exact ⟨quote, body, rfl, List.mem_append_left ['\x60'] quotes⟩
  | @raw body _ => exact ⟨'\x60', body, rfl, by decide⟩

end Strings

section Numerals

theorem split_sign (text : List Char) : ∃ sign unsigned, text = sign ++ unsigned ∧
    sign ∈ [[], ['+'], ['-']] ∧
    (sign = [] → ∀ c, unsigned.head? = some c → c ∉ ['+', '-']) := by
  cases text with
  | nil => exact ⟨[], [], rfl, by decide, fun _ _ empty => nomatch empty⟩
  | cons c rest =>
    by_cases signs : c ∈ ['+', '-']
    · exact ⟨[c], rest, rfl, by simpa using signs, fun empty => nomatch empty⟩
    · refine ⟨[], c :: rest, rfl, by decide, fun _ d first => ?_⟩
      cases first
      exact signs

theorem exponentPart_signed {letter : Char} {sign unsigned : List Char}
    (letters : letter ∈ ['e', 'E']) (signs : sign ∈ [[], ['+'], ['-']])
    (bare : sign = [] → ∀ c, unsigned.head? = some c → c ∉ ['+', '-']) :
    exponentPart (letter :: (sign ++ unsigned)) =
      if unsigned.takeWhile isDigit = [] then []
      else letter :: (sign ++ unsigned.takeWhile isDigit) := by
  have power : (letter = 'e' || letter = 'E') = true := by simpa using letters
  rw [exponentPart.eq_def]
  dsimp only
  rw [if_pos power]
  simp only [List.mem_cons, List.not_mem_nil, or_false] at signs
  rcases signs with rfl | rfl | rfl
  · have noPlus : ∀ after, unsigned = '+' :: after → False := by
      rintro after rfl
      exact absurd (bare rfl '+' rfl) (by decide)
    have noMinus : ∀ after, unsigned = '-' :: after → False := by
      rintro after rfl
      exact absurd (bare rfl '-' rfl) (by decide)
    cases digits : unsigned.takeWhile isDigit <;> simp [digits]
  · cases digits : unsigned.takeWhile isDigit <;> simp [digits]
  · cases digits : unsigned.takeWhile isDigit <;> simp [digits]

theorem exponentPart_none {c : Char} (rest : List Char) (other : c ∉ ['e', 'E']) :
    exponentPart (c :: rest) = [] := by
  rw [exponentPart.eq_def]
  exact if_neg (by simpa using other)

theorem exponentPart_sound (text : List Char) :
    IsExponent (exponentPart text) ∧ exponentPart text <+: text := by
  cases text with
  | nil => exact ⟨.nothing, List.prefix_rfl⟩
  | cons c rest =>
    by_cases letters : c ∈ ['e', 'E']
    · obtain ⟨sign, unsigned, rfl, signs, bare⟩ := split_sign rest
      rw [exponentPart_signed letters signs bare]
      split
      · exact ⟨.nothing, List.nil_prefix⟩
      · next nonempty =>
        exact ⟨.power letters signs ⟨nonempty, holds_of_mem_takeWhile⟩,
          by simpa using List.takeWhile_prefix _⟩
    · rw [exponentPart_none rest letters]
      exact ⟨.nothing, List.nil_prefix⟩

theorem exponentPart_longest {exponent text : List Char} (held : IsExponent exponent)
    (leads : exponent <+: text) : exponent.length ≤ (exponentPart text).length := by
  cases held with
  | nothing => exact Nat.zero_le _
  | @power letter sign digits letters signs held =>
    obtain ⟨tail, rfl⟩ := leads
    obtain ⟨digit, rest, rfl⟩ := List.exists_cons_of_ne_nil held.1
    have bare : ∀ c, (digit :: rest ++ tail).head? = some c → c ∉ ['+', '-'] := by
      intro c first
      cases first
      have apart := (digit_apart digit (held.2 digit List.mem_cons_self)).2
      simp only [List.mem_cons, List.not_mem_nil, or_false, not_or] at apart ⊢
      exact apart.2.2.2.2.2.2
    have longest := length_le_takeWhile held.2 (List.prefix_append _ tail)
    have nonempty : (digit :: rest ++ tail).takeWhile isDigit ≠ [] := by
      intro empty
      rw [empty] at longest
      exact absurd longest (by simp)
    rw [List.cons_append, List.append_assoc, exponentPart_signed letters signs fun _ => bare,
      if_neg nonempty]
    simpa using longest

variable {whole digits after text : List Char}

theorem numeralPart_whole (all : ∀ c ∈ whole, isDigit c = true)
    (stops : ∀ c, after.head? = some c → isDigit c = false)
    (noPoint : ∀ rest, after ≠ '.' :: rest) :
    numeralPart (whole ++ after) = if whole = [] then [] else whole ++ exponentPart after := by
  unfold numeralPart
  dsimp only
  rw [takeWhile_exact all stops, List.drop_left]
  split
  · next rest => exact absurd rfl (noPoint rest)
  · cases whole <;> simp

theorem numeralPart_pointed (all : ∀ c ∈ whole, isDigit c = true)
    (each : ∀ c ∈ digits, isDigit c = true)
    (stops : ∀ c, after.head? = some c → isDigit c = false) :
    numeralPart (whole ++ '.' :: (digits ++ after)) =
      if whole = [] ∧ digits = [] then [] else whole ++ '.' :: digits ++ exponentPart after := by
  have own : (whole ++ '.' :: (digits ++ after)).takeWhile isDigit = whole :=
    takeWhile_exact all (by rintro c ⟨⟩; decide)
  unfold numeralPart
  simp only [own, List.drop_left, takeWhile_exact each stops]
  cases whole <;> cases digits <;> simp

/-- Every text starts with digits, and perhaps a point with digits behind. -/
theorem numeral_split (text : List Char) : ∃ whole, (∀ c ∈ whole, isDigit c = true) ∧
    ((∃ after, text = whole ++ after ∧ (∀ c, after.head? = some c → isDigit c = false) ∧
        ∀ rest, after ≠ '.' :: rest) ∨
      ∃ digits after, text = whole ++ '.' :: (digits ++ after) ∧
        (∀ c ∈ digits, isDigit c = true) ∧ ∀ c, after.head? = some c → isDigit c = false) := by
  obtain ⟨whole, after, rfl, all, stops⟩ := exists_run isDigit text
  refine ⟨whole, all, ?_⟩
  by_cases point : ∃ rest, after = '.' :: rest
  · obtain ⟨rest, rfl⟩ := point
    obtain ⟨digits, after, rfl, each, stops⟩ := exists_run isDigit rest
    exact .inr ⟨digits, after, rfl, each, stops⟩
  · exact .inl ⟨after, rfl, stops, fun rest same => point ⟨rest, same⟩⟩

theorem numeralPart_sound (held : numeralPart text ≠ []) :
    IsNumeral (numeralPart text) ∧ numeralPart text <+: text := by
  obtain ⟨whole, all, ⟨after, rfl, stops, noPoint⟩ | ⟨digits, after, rfl, each, stops⟩⟩ :=
    numeral_split text
  · obtain ⟨power, leads⟩ := exponentPart_sound after
    rw [numeralPart_whole all stops noPoint] at held ⊢
    split at held
    · exact absurd rfl held
    · next nonempty =>
      rw [if_neg nonempty]
      exact ⟨⟨_, _, rfl, .whole ⟨nonempty, all⟩, power⟩, (List.prefix_append_right_inj _).mpr leads⟩
  · obtain ⟨power, leads⟩ := exponentPart_sound after
    rw [numeralPart_pointed all each stops] at held ⊢
    split at held
    · exact absurd rfl held
    · next notBoth =>
      rw [if_neg notBoth]
      refine ⟨⟨_, _, rfl, ?_, power⟩, by simpa using leads⟩
      by_cases pointFirst : whole = []
      · subst pointFirst
        exact .fraction ⟨fun empty => notBoth ⟨rfl, empty⟩, each⟩
      · exact .pointed ⟨pointFirst, all⟩ each

theorem numeralPart_ge_whole (own : List Char) (held : IsDigits own) (leads : own <+: text) :
    own.length ≤ (numeralPart text).length := by
  obtain ⟨whole, all, ⟨after, rfl, stops, noPoint⟩ | ⟨digits, after, rfl, each, stops⟩⟩ :=
    numeral_split text
  · have longest := length_le_takeWhile held.2 leads
    rw [takeWhile_exact all stops] at longest
    have nonempty : whole ≠ [] := by
      rintro rfl
      exact held.1 (List.length_eq_zero_iff.mp (Nat.le_zero.mp longest))
    rw [numeralPart_whole all stops noPoint, if_neg nonempty, List.length_append]
    omega
  · have longest := length_le_takeWhile held.2 leads
    rw [takeWhile_exact all (by rintro c ⟨⟩; decide)] at longest
    have nonempty : whole ≠ [] := by
      rintro rfl
      exact held.1 (List.length_eq_zero_iff.mp (Nat.le_zero.mp longest))
    rw [numeralPart_pointed all each stops, if_neg fun both => nonempty both.1]
    simp only [List.length_append]
    omega

theorem numeralPart_ge_pointed (all : ∀ c ∈ whole, isDigit c = true)
    (each : ∀ c ∈ digits, isDigit c = true) (held : whole ≠ [] ∨ digits ≠ []) :
    (whole ++ '.' :: digits).length ≤
      (numeralPart (whole ++ '.' :: (digits ++ after))).length := by
  obtain ⟨own, tail, split, allOwn, stops⟩ := exists_run isDigit (digits ++ after)
  have longest := length_le_takeWhile each (List.prefix_append digits after)
  rw [split, takeWhile_exact allOwn stops] at longest
  have notBoth : ¬ (whole = [] ∧ own = []) := by
    rintro ⟨rfl, rfl⟩
    rcases held with digit | digit
    · exact digit rfl
    · exact digit (List.length_eq_zero_iff.mp (Nat.le_zero.mp longest))
  rw [split, numeralPart_pointed all allOwn stops, if_neg notBoth]
  simp only [List.length_append, List.length_cons]
  omega

/-- No exponent starts with a digit or a point, so before these a numeral without one is over. -/
theorem exponent_head {exponent : List Char} (power : IsExponent exponent) (tail : List Char) :
    exponent = [] ∨ (∀ c, (exponent ++ tail).head? = some c → isDigit c = false) ∧
      ∀ rest, exponent ++ tail ≠ '.' :: rest := by
  cases power with
  | nothing => exact .inl rfl
  | @power letter sign digits letters signs held =>
    simp only [List.mem_cons, List.not_mem_nil, or_false] at letters
    refine .inr ⟨?_, ?_⟩
    · rintro c ⟨⟩
      rcases letters with rfl | rfl <;> decide
    · rintro rest same
      rcases letters with rfl | rfl <;> exact absurd (List.cons.inj same).1 (by decide)

/-- No numeral at the start of a text is longer than the one that is found. -/
theorem numeralPart_longest (own : List Char) (numeral : IsNumeral own) (leads : own <+: text) :
    own.length ≤ (numeralPart text).length := by
  obtain ⟨mantissa, exponent, rfl, body, power⟩ := numeral
  obtain ⟨tail, rfl⟩ := leads
  have longest := exponentPart_longest power (List.prefix_append exponent tail)
  have pointed (whole digits : List Char) (all : ∀ c ∈ whole, isDigit c = true)
      (each : ∀ c ∈ digits, isDigit c = true) (held : whole ≠ [] ∨ digits ≠ []) :
      (whole ++ '.' :: digits ++ exponent).length ≤
        (numeralPart (whole ++ '.' :: digits ++ exponent ++ tail)).length := by
    have grouped : whole ++ '.' :: digits ++ exponent ++ tail =
        whole ++ '.' :: (digits ++ (exponent ++ tail)) := by simp
    rw [grouped]
    rcases exponent_head power tail with rfl | ⟨stops, _⟩
    · rw [List.append_nil]
      exact numeralPart_ge_pointed all each held
    · rw [numeralPart_pointed all each stops, if_neg (by rintro ⟨rfl, rfl⟩; simp at held)]
      simp only [List.length_append] at longest ⊢
      omega
  cases body with
  | whole held =>
    rcases exponent_head power tail with rfl | ⟨stops, noPoint⟩
    · rw [List.append_nil]
      exact numeralPart_ge_whole _ held (List.prefix_append _ tail)
    · rw [List.append_assoc, numeralPart_whole held.2 stops noPoint, if_neg held.1]
      simp only [List.length_append]
      omega
  | pointed held each => exact pointed _ _ held.2 each (.inl held.1)
  | fraction held => exact pointed [] _ nofun held.2 (.inr held.1)

theorem numeralPart_none (c : Char) (rest : List Char) (other : isDigit c = false)
    (noPoint : c ≠ '.') : numeralPart (c :: rest) = [] := by
  have stops : ∀ d, (c :: rest).head? = some d → isDigit d = false := by
    rintro d ⟨⟩
    exact other
  have part : numeralPart ([] ++ c :: rest) = _ :=
    numeralPart_whole nofun stops fun _ same => noPoint (List.cons.inj same).1
  rwa [if_pos rfl, List.nil_append] at part

theorem mantissa_chars {mantissa : List Char} (held : IsMantissa mantissa) :
    ∀ d ∈ mantissa, isDigit d = true ∨ d = '.' := by
  intro d member
  cases held with
  | whole held => exact .inl (held.2 d member)
  | pointed held each =>
    rcases List.mem_append.mp member with member | member
    · exact .inl (held.2 d member)
    · exact (List.mem_cons.mp member).symm.imp_left (each d)
  | fraction held => exact (List.mem_cons.mp member).symm.imp_left (held.2 d)

theorem numeral_chars {part : List Char} (numeral : IsNumeral part) :
    ∀ c ∈ part, isDigit c = true ∨ c ∈ ['.', 'e', 'E', '+', '-'] := by
  obtain ⟨mantissa, exponent, rfl, body, power⟩ := numeral
  intro c member
  rcases List.mem_append.mp member with member | member
  · rcases mantissa_chars body c member with digit | rfl
    · exact .inl digit
    · exact .inr (by decide)
  · cases power with
    | nothing => cases member
    | power letters signs held =>
      simp only [List.mem_cons, List.not_mem_nil, or_false] at letters signs
      rcases List.mem_cons.mp member with rfl | member
      · rcases letters with rfl | rfl <;> exact .inr (by decide)
      · rcases List.mem_append.mp member with member | member
        · rcases signs with rfl | rfl | rfl
          · cases member
          · obtain rfl := List.mem_singleton.mp member
            exact .inr (by decide)
          · obtain rfl := List.mem_singleton.mp member
            exact .inr (by decide)
        · exact .inl (held.2 c member)

end Numerals

section Symbols

theorem symbol_sound {context : Context} {text : List Char} {symbol : Symbol} {size : Nat}
    (found : symbol? context text = some (symbol, size)) :
    symbol.text <+: text ∧ size = symbol.text.length := by
  unfold symbol? at found
  split at found
  · split at found
    · cases found
      exact ⟨⟨_, rfl⟩, rfl⟩
    · split at found <;> cases found <;> exact ⟨⟨_, rfl⟩, rfl⟩
  all_goals cases found
  all_goals exact ⟨⟨_, rfl⟩, rfl⟩

theorem symbol_self (symbol : Symbol) :
    symbol? .operator symbol.text = some (symbol, symbol.text.length) := by
  cases symbol <;> rfl

theorem symbol_text_inj {one other : Symbol} (same : one.text = other.text) : one = other := by
  have found := symbol_self one
  rw [same, symbol_self other] at found
  exact (Prod.mk.inj (Option.some.inj found)).1.symm

/-- A symbol is found whole unless an equals sign comes after it. -/
theorem symbol_whole {symbol : Symbol} (noBang : symbol ≠ .bang) {tail : List Char}
    (apart : ∀ more, tail ≠ '=' :: more) :
    symbol? .operator (symbol.text ++ tail) = some (symbol, symbol.text.length) := by
  cases symbol with
  | bang => exact absurd rfl noBang
  | equal | unequal | less | greater =>
    cases tail with
    | nil => rfl
    | cons c rest => simp [Symbol.text, symbol?]
  | _ => rfl

/-- A symbol that is the start of another is a comparison, and the other goes on with an equals
sign. -/
theorem symbol_goes_on {symbol longer : Symbol} (noBang : symbol ≠ .bang) {c : Char}
    {more : List Char} (starts : longer.text = symbol.text ++ c :: more) :
    c = '=' ∧ (Terminal.symbol symbol).next = .operand := by
  have found := symbol_self longer
  rw [starts] at found
  constructor
  · by_cases equals : c = '='
    · exact equals
    · rw [symbol_whole noBang fun _ same => equals (List.cons.inj same).1] at found
      obtain ⟨rfl, _⟩ := Prod.mk.inj (Option.some.inj found)
      simp at starts
  · cases symbol with
    | dot | rightParen | rightBracket => cases found
    | _ => rfl

/-- Where a symbol that is due stands at the start of a text, the one that is found is due, and no
shorter. -/
theorem symbol_longest {context : Context} {symbol : Symbol}
    (due : (Terminal.symbol symbol).Due context) (tail : List Char) :
    ∃ found, symbol? context (symbol.text ++ tail) = some (found, found.text.length) ∧
      (Terminal.symbol found).Due context ∧ symbol.text.length ≤ found.text.length := by
  cases context with
  | member => cases due
  | operand =>
    simp only [Terminal.Due, List.mem_cons, List.not_mem_nil, or_false] at due
    rcases due with rfl | rfl | rfl | rfl | rfl | rfl <;>
      exact ⟨_, rfl, by simp [Terminal.Due], Nat.le_refl _⟩
  | operator =>
    -- Four symbols can go on with an equals sign; no other is the start of a longer one.
    by_cases equals : ∃ more, tail = '=' :: more
    · obtain ⟨more, rfl⟩ := equals
      cases symbol with
      | bang => cases due rfl
      | equal => exact ⟨.identical, rfl, due_operator (by decide), by decide⟩
      | unequal => exact ⟨.distinct, rfl, due_operator (by decide), by decide⟩
      | less => exact ⟨.atMost, rfl, due_operator (by decide), by decide⟩
      | greater => exact ⟨.atLeast, rfl, due_operator (by decide), by decide⟩
      | _ => exact ⟨_, rfl, due, Nat.le_refl _⟩
    · have noBang : symbol ≠ .bang := due
      have whole := symbol_whole noBang fun more same => equals ⟨more, same⟩
      exact ⟨symbol, whole, due, Nat.le_refl _⟩

theorem symbol_head (symbol : Symbol) : ∃ c rest, symbol.text = c :: rest ∧
    startsName c = false ∧ isDigit c = false ∧ c ∉ ['"', '\'', '\x60'] ∧
    (c = '.' → symbol = .dot) := by
  cases symbol <;> exact ⟨_, _, rfl, by decide, by decide, by decide, by decide⟩

end Symbols

section Words

theorem keyword_iff (word : List Char) (known : Keyword) :
    keyword? word = some known ↔ word = known.text := by
  constructor
  · intro found
    unfold keyword? at found
    split at found
    · next same =>
      cases found
      exact same
    · split at found
      · next same =>
        cases found
        exact same
      · split at found
        · next same =>
          cases found
          exact same
        · split at found
          · next same =>
            cases found
            exact same
          · cases found
  · rintro rfl
    cases known <;> rfl

theorem keyword_isName (known : Keyword) : IsName known.text := by
  cases known <;> exact ⟨_, _, rfl, by decide, List.all_eq_true.mp (by decide)⟩

theorem scan_letters (context : Context) {c : Char} (rest : List Char)
    (starts : startsName c = true) :
    scan? context (c :: rest) = some (wordTerminal context (c :: rest.takeWhile continuesName),
      c :: rest.takeWhile continuesName) := by
  rw [scan?]
  dsimp only
  rw [if_pos starts]

/-- A name that no letter or digit comes after is found whole. -/
theorem scan_named (context : Context) {part tail : List Char} (named : IsName part)
    (stops : ∀ c, tail.head? = some c → continuesName c = false) :
    scan? context (part ++ tail) = some (wordTerminal context part, part) := by
  obtain ⟨c, rest, rfl, starts, goesOn⟩ := named
  rw [List.cons_append, scan_letters context (rest ++ tail) starts, takeWhile_exact goesOn stops]

theorem wordTerminal_cases (context : Context) (word : List Char) :
    (wordTerminal context word = .name ∧
      ∀ known : Keyword, (Terminal.keyword known).Due context → word ≠ known.text) ∨
    ∃ known : Keyword, wordTerminal context word = .keyword known ∧ word = known.text := by
  unfold wordTerminal
  split
  · next member =>
    rw [member]
    exact .inl ⟨rfl, fun _ due => nomatch due⟩
  · split
    · next known found => exact .inr ⟨known, rfl, (keyword_iff word known).mp found⟩
    · next unreserved =>
      refine .inl ⟨rfl, fun known _ same => ?_⟩
      rw [(keyword_iff word known).mpr same] at unreserved
      cases unreserved

theorem wordTerminal_due {context : Context} (word : List Char) (operator : context ≠ .operator) :
    (wordTerminal context word).Due context := by
  cases context with
  | operator => exact absurd rfl operator
  | member => rfl
  | operand =>
    rcases wordTerminal_cases .operand word with ⟨same, _⟩ | ⟨known, same, _⟩ <;>
      rw [same] <;> trivial

end Words

section Scanning

variable {context : Context} {terminal : Terminal} {part text : List Char}

/-- What the scanner finds has the form of its terminal. -/
theorem fits_of_scan (found : scan? context text = some (terminal, part)) :
    terminal.Matches part ∧ part <+: text ∧ ∀ known : Keyword,
      (Terminal.keyword known).Due context → terminal = .name → part ≠ known.text := by
  cases text with
  | nil => cases found
  | cons c rest =>
    by_cases starts : startsName c = true
    · rw [scan_letters context rest starts] at found
      obtain ⟨rfl, rfl⟩ := Prod.mk.inj (Option.some.inj found)
      have leads : c :: rest.takeWhile continuesName <+: c :: rest := by
        simpa using List.takeWhile_prefix _
      rcases wordTerminal_cases context (c :: rest.takeWhile continuesName) with
        ⟨same, unreserved⟩ | ⟨known, same, written⟩
      · rw [same]
        exact ⟨⟨c, _, rfl, starts, holds_of_mem_takeWhile⟩, leads, fun known due _ =>
          unreserved known due⟩
      · rw [same]
        exact ⟨written, leads, fun _ _ name => nomatch name⟩
    · rw [scan?] at found
      dsimp only at found
      rw [if_neg starts] at found
      split at found
      · next string =>
        cases found
        obtain ⟨held, leads⟩ := isString_of_string string
        exact ⟨held, leads, fun _ _ name => nomatch name⟩
      · generalize read : (if (decide (c = '.') && decide (context = .operator)) = true then []
          else numeralPart (c :: rest)) = own at found
        cases own with
        | nil =>
          obtain ⟨⟨symbol, size⟩, read, same⟩ := Option.map_eq_some_iff.mp found
          obtain ⟨leads, rfl⟩ := symbol_sound read
          obtain ⟨rfl, rfl⟩ := Prod.mk.inj same
          rw [← List.prefix_iff_eq_take.mp leads]
          exact ⟨rfl, leads, fun _ _ name => nomatch name⟩
        | cons d more =>
          obtain ⟨rfl, rfl⟩ := Prod.mk.inj (Option.some.inj found)
          split at read
          · cases read
          · rw [← read]
            have nonempty : numeralPart (c :: rest) ≠ [] := read ▸ List.cons_ne_nil d more
            obtain ⟨held, leads⟩ := numeralPart_sound nonempty
            exact ⟨held, leads, fun _ _ name => nomatch name⟩

theorem scan_of_name (named : IsName part) (leads : part <+: text) :
    ∃ own, scan? context text = some (wordTerminal context own, own) ∧
      part.length ≤ own.length := by
  obtain ⟨c, letters, rfl, starts, goesOn⟩ := named
  obtain ⟨tail, rfl⟩ := leads
  refine ⟨_, scan_letters context (letters ++ tail) starts, ?_⟩
  have longest := length_le_takeWhile goesOn (List.prefix_append letters tail)
  simpa using longest

theorem scan_of_string (string : IsString part) (leads : part <+: text) :
    scan? context text = some (.string, part) := by
  obtain ⟨tail, rfl⟩ := leads
  have found := string_of_isString string tail
  obtain ⟨c, rest, rfl, other⟩ : ∃ c rest, part = c :: rest ∧ startsName c = false := by
    cases string with
    | @quoted quote body quotes held =>
      simp only [List.mem_cons, List.not_mem_nil, or_false] at quotes
      rcases quotes with rfl | rfl <;> exact ⟨_, _, rfl, by decide⟩
    | raw held => exact ⟨_, _, rfl, by decide⟩
  rw [List.cons_append] at found ⊢
  rw [scan?]
  dsimp only
  rw [if_neg (by simp [other]), found]

theorem numeral_head (numeral : IsNumeral part) : ∃ c rest, part = c :: rest ∧
    (isDigit c = true ∨ c = '.') := by
  obtain ⟨mantissa, exponent, rfl, body, _⟩ := numeral
  cases body with
  | whole held | pointed held _ =>
    obtain ⟨c, rest, rfl⟩ := List.exists_cons_of_ne_nil held.1
    exact ⟨c, _, rfl, .inl (held.2 c List.mem_cons_self)⟩
  | fraction held => exact ⟨'.', _, rfl, .inr rfl⟩

theorem scan_of_numeral (numeral : IsNumeral part) (leads : part <+: text) :
    scan? .operand text = some (.numeral, numeralPart text) ∧
      part.length ≤ (numeralPart text).length := by
  have longest := numeralPart_longest part numeral leads
  refine ⟨?_, longest⟩
  obtain ⟨c, rest, rfl, head⟩ := numeral_head numeral
  obtain ⟨tail, rfl⟩ := leads
  have apart : startsName c = false ∧ c ∉ ['"', '\'', '\x60'] := by
    rcases head with digit | rfl
    · obtain ⟨noName, others⟩ := digit_apart c digit
      simp only [List.mem_cons, List.not_mem_nil, or_false, not_or] at others ⊢
      exact ⟨noName, others.2.1, others.2.2.1, others.2.2.2.1⟩
    · decide
  have nonempty : (numeralPart (c :: rest ++ tail)).isEmpty = false := by
    cases read : numeralPart (c :: rest ++ tail) with
    | nil =>
      rw [read] at longest
      exact absurd longest (by simp)
    | cons d more => rfl
  rw [List.cons_append] at nonempty ⊢
  rw [scan?]
  dsimp only
  rw [if_neg (by simp [apart.1]), string_none c _ apart.2]
  simp [nonempty]

theorem scan_of_symbol {symbol : Symbol} (due : (Terminal.symbol symbol).Due context)
    (leads : symbol.text <+: text) : ∃ found : Symbol,
      scan? context text = some (.symbol found, found.text) ∧
      (Terminal.symbol found).Due context ∧ symbol.text.length ≤ found.text.length := by
  obtain ⟨tail, rfl⟩ := leads
  obtain ⟨found, read, dueFound, longest⟩ := symbol_longest due tail
  refine ⟨found, ?_, dueFound, longest⟩
  obtain ⟨leads, _⟩ := symbol_sound read
  obtain ⟨c, rest, same, noName, noDigit, noString, point⟩ := symbol_head symbol
  have shown := List.prefix_iff_eq_take.mp leads
  rw [same, List.cons_append] at read shown ⊢
  have noNumeral : (if (decide (c = '.') && decide (context = .operator)) = true then []
      else numeralPart (c :: (rest ++ tail))) = [] := by
    by_cases dot : c = '.'
    · obtain rfl := point dot
      have operator : context = .operator := by
        cases context with
        | operator => rfl
        | operand => simp [Terminal.Due] at due
        | member => cases due
      simp [dot, operator]
    · simp [dot, numeralPart_none c _ noDigit dot]
  rw [scan?]
  dsimp only
  rw [if_neg (by simp [noName]), string_none c _ noString]
  simp only [noNumeral, List.isEmpty_nil, if_true, read, Option.map_some, ← shown]

/-- A word that is due is scanned with all the letters that follow it. -/
theorem scan_of_word (due : terminal.Due context) (apart : ¬ terminal.Due .operator)
    (named : IsName part) (leads : part <+: text) :
    ∃ own, scan? context text = some (wordTerminal context own, own) ∧
      (wordTerminal context own).Due context ∧ part.length ≤ own.length := by
  have operator : context ≠ .operator := by
    rintro rfl
    exact apart due
  obtain ⟨own, scanned, longest⟩ := scan_of_name named leads
  exact ⟨own, scanned, wordTerminal_due own operator, longest⟩

/-- Where a token that is due starts, the scanner finds one that is no shorter. -/
theorem scan_of_due (due : terminal.Due context) (fits : terminal.Matches part)
    (leads : part <+: text) : ∃ found own, scan? context text = some (found, own) ∧
      found.Due context ∧ part.length ≤ own.length := by
  cases terminal with
  | symbol mark =>
    obtain rfl : part = mark.text := fits
    obtain ⟨found, scanned, dueFound, longest⟩ := scan_of_symbol due leads
    exact ⟨_, _, scanned, dueFound, longest⟩
  | keyword known =>
    obtain rfl : part = known.text := fits
    obtain ⟨own, scanned⟩ := scan_of_word due id (keyword_isName known) leads
    exact ⟨_, own, scanned⟩
  | name =>
    obtain ⟨own, scanned⟩ := scan_of_word due id fits leads
    exact ⟨_, own, scanned⟩
  | numeral =>
    cases context with
    | operand =>
      obtain ⟨scanned, longest⟩ := scan_of_numeral fits leads
      exact ⟨_, _, scanned, trivial, longest⟩
    | operator => cases due
    | member => cases due
  | string => exact ⟨_, _, scan_of_string fits leads, due, Nat.le_refl _⟩

section Leading

variable {rest : List Char} (leads : Leads context ⟨terminal, part⟩ rest)

include leads

/-- What the scanner finds is the token that leads, unless it is shorter. -/
theorem part_of_scan {found : Terminal} {own : List Char}
    (scanned : scan? context (part ++ rest) = some (found, own)) (due : found.Due context)
    (atLeast : part.length ≤ own.length) : own = part := by
  obtain ⟨fits, starts, _⟩ := fits_of_scan scanned
  have atMost := leads.longest found own due fits starts
  have inside := List.prefix_of_prefix_length_le starts (List.prefix_append part rest) atMost
  exact inside.eq_of_length (Nat.le_antisymm atMost atLeast)

theorem scan_of_leads : scan? context (part ++ rest) = some (terminal, part) := by
  have starts := List.prefix_append part rest
  obtain ⟨due, fits, _, unreserved⟩ := id leads
  cases terminal with
  | symbol mark =>
    obtain rfl : part = mark.text := fits
    obtain ⟨found, scanned, dueFound, atLeast⟩ := scan_of_symbol due starts
    obtain rfl := symbol_text_inj (part_of_scan leads scanned dueFound atLeast)
    exact scanned
  | keyword known =>
    obtain rfl : part = known.text := fits
    obtain ⟨own, scanned, dueFound, atLeast⟩ := scan_of_word due id (keyword_isName known) starts
    obtain rfl := part_of_scan leads scanned dueFound atLeast
    rcases wordTerminal_cases context known.text with ⟨_, other⟩ | ⟨found, same, written⟩
    · exact absurd rfl (other known due)
    · rw [scanned, same]
      have unique := (keyword_iff _ found).mpr written
      rw [(keyword_iff _ known).mpr rfl] at unique
      rw [Option.some.inj unique]
  | name =>
    obtain ⟨own, scanned, dueFound, atLeast⟩ := scan_of_word due id fits starts
    obtain rfl := part_of_scan leads scanned dueFound atLeast
    rcases wordTerminal_cases context own with ⟨same, _⟩ | ⟨known, same, written⟩
    · rw [scanned, same]
    · rw [same] at dueFound
      exact absurd written (unreserved known dueFound rfl)
  | numeral =>
    cases context with
    | operand =>
      obtain ⟨scanned, atLeast⟩ := scan_of_numeral fits starts
      have same := part_of_scan leads scanned trivial atLeast
      rwa [same] at scanned
    | operator => cases due
    | member => cases due
  | string => exact scan_of_string fits starts

end Leading

/-- The scanner finds a token exactly where it leads what is left of the text. -/
theorem scan_iff_leads (rest : List Char) :
    Leads context ⟨terminal, part⟩ rest ↔
      scan? context (part ++ rest) = some (terminal, part) ∧ terminal.Due context := by
  constructor
  · intro leads
    exact ⟨scan_of_leads leads, leads.due⟩
  · rintro ⟨scanned, due⟩
    obtain ⟨fits, _, unreserved⟩ := fits_of_scan scanned
    refine ⟨due, fits, fun other own dueOther fitsOther leads => ?_, unreserved⟩
    obtain ⟨found, read, scannedOther, _, longest⟩ := scan_of_due dueOther fitsOther leads
    rw [scanned] at scannedOther
    obtain ⟨_, rfl⟩ := Prod.mk.inj (Option.some.inj scannedOther)
    exact longest

end Scanning

end Keymap.Expr
