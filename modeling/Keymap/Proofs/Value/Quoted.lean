import Keymap.Value.Json
import Keymap.Value.Reader

/-!
A text between quotes reads back: every character is escaped into a code word of its own, and no
code word starts with a quote.
-/

set_option autoImplicit false

namespace Keymap.Json

open Text (Digest.hexDigits Digest.hexDigit)

theorem hexValue_hexDigit : ∀ value < 16, hexValue? (Digest.hexDigit value) = some value := by
  decide

theorem hexDigits_four (unit : Nat) : Digest.hexDigits 4 unit =
    [Digest.hexDigit (unit >>> 12 % 16), Digest.hexDigit (unit >>> 8 % 16),
      Digest.hexDigit (unit >>> 4 % 16), Digest.hexDigit (unit >>> 0 % 16)] := rfl

theorem readUnit_hexDigits (unit : Nat) (small : unit < 0x10000) (next : Char)
    (rest : List Char) :
    readUnit? (Digest.hexDigits 4 unit ++ next :: rest) = some (unit, next :: rest) := by
  have digit : ∀ value : Nat, hexValue? (Digest.hexDigit (value % 16)) = some (value % 16) :=
    fun value => hexValue_hexDigit _ (Nat.mod_lt _ (by omega))
  have whole : 16 * (16 * (16 * (unit >>> 12 % 16) + unit >>> 8 % 16) + unit >>> 4 % 16) +
      unit >>> 0 % 16 = unit := by
    simp only [Nat.shiftRight_eq_div_pow]
    omega
  rw [hexDigits_four]
  simp only [List.cons_append, List.nil_append, readUnit?, digit, bind, Option.bind, whole]

theorem char_valid (c : Char) : c.toNat < 0xd800 ∨ 0xdfff < c.toNat ∧ c.toNat < 0x110000 :=
  c.valid

variable (opening : List Char) (fuel : Nat) (c : Char) (text chars final : List Char)
  (later : readChars opening fuel text = .ok (chars, final))

include later

theorem readChars_simple (mark : Char) (known : simpleEscape? mark = some c) :
    readChars opening (fuel + 1) ('\\' :: mark :: text) = .ok (c :: chars, final) := by
  have notUnit : mark ≠ 'u' := by
    rintro rfl
    cases known
  simp [readChars, known, later, bind, Except.bind, pure, Except.pure]

theorem readChars_shown (shown : 0x20 ≤ c.toNat) (notQuote : c ≠ '"') (notEscape : c ≠ '\\') :
    readChars opening (fuel + 1) (c :: text) = .ok (c :: chars, final) := by
  have printable : ¬ c.toNat < 0x20 := by omega
  simp [readChars, notEscape, printable, later, bind, Except.bind, pure, Except.pure]

theorem text_goes_on : ∃ next rest, text = next :: rest := by
  cases text with
  | nil => cases fuel <;> simp [readChars, miss] at later
  | cons next rest => exact ⟨next, rest, rfl⟩

theorem readChars_unit (small : c.toNat < 0x10000) :
    readChars opening (fuel + 1) (escapeUnit c.toNat ++ text) = .ok (c :: chars, final) := by
  obtain ⟨next, rest, rfl⟩ := text_goes_on opening fuel text chars final later
  have valid := char_valid c
  have read := readUnit_hexDigits c.toNat small next rest
  have alone : ¬ (0xd800 ≤ c.toNat ∧ c.toNat < 0xdc00) := by omega
  have meant : ofUnit c.toNat = c := by
    have whole : ¬ (0xd800 ≤ c.toNat ∧ c.toNat < 0xe000) := by omega
    simp [ofUnit, whole, Char.ofNat_toNat]
  simp only [escapeUnit, List.cons_append, readChars, read]
  simp [alone, meant, later, bind, Except.bind, pure, Except.pure]

/-- Two escaped halves read back as the one character that they make. -/
theorem readChars_halves (high low : Nat) (first : 0xd800 ≤ high ∧ high < 0xdc00)
    (second : 0xdc00 ≤ low ∧ low < 0xe000)
    (meant : Char.ofNat (0x10000 + (high - 0xd800) * 0x400 + (low - 0xdc00)) = c) :
    readChars opening (fuel + 1) (escapeUnit high ++ escapeUnit low ++ text) =
      .ok (c :: chars, final) := by
  obtain ⟨next, rest, rfl⟩ := text_goes_on opening fuel text chars final later
  have highRead := readUnit_hexDigits high (by omega) '\\'
    ('u' :: (Digest.hexDigits 4 low ++ next :: rest))
  have lowRead := readUnit_hexDigits low (by omega) next rest
  have long : ¬ (Digest.hexDigits 4 low).length + (rest.length + 1) < 5 := by
    simp only [hexDigits_four, List.length_cons, List.length_nil]
    omega
  simp only [escapeUnit, List.cons_append, List.append_assoc, readChars, highRead, lowRead]
  simp [first, second, long, meant, later, bind, Except.bind, pure, Except.pure]

theorem readChars_pair (large : 0x10000 ≤ c.toNat) :
    readChars opening (fuel + 1)
      (escapeUnit (0xd800 + (c.toNat - 0x10000) / 0x400) ++
        escapeUnit (0xdc00 + (c.toNat - 0x10000) % 0x400) ++ text) = .ok (c :: chars, final) := by
  have valid := char_valid c
  refine readChars_halves opening fuel c text chars final later _ _ ⟨by omega, by omega⟩
    ⟨by omega, by omega⟩ ?_
  have whole : 0x10000 + (0xd800 + (c.toNat - 0x10000) / 0x400 - 0xd800) * 0x400 +
      (0xdc00 + (c.toNat - 0x10000) % 0x400 - 0xdc00) = c.toNat := by omega
  rw [whole, Char.ofNat_toNat]

theorem readChars_escape :
    readChars opening (fuel + 1) (escape c ++ text) = .ok (c :: chars, final) := by
  have simple := readChars_simple opening fuel c text chars final later
  unfold escape
  by_cases marked : (c = '"' || c = '\\') = true
  · have known : simpleEscape? c = some c := by
      rcases (by simpa using marked) with rfl | rfl <;> rfl
    simpa [marked] using simple c known
  by_cases newline : c = '\n'
  · simpa [newline] using simple 'n' (newline ▸ rfl)
  by_cases turn : c = '\r'
  · simpa [turn] using simple 'r' (turn ▸ rfl)
  by_cases tab : c = '\t'
  · simpa [tab] using simple 't' (tab ▸ rfl)
  by_cases page : c.toNat = 0x0c
  · have same : c = '\x0c' := Char.toNat_inj.mp page
    simpa [same] using simple 'f' (same ▸ rfl)
  by_cases back : c.toNat = 0x08
  · have same : c = '\x08' := Char.toNat_inj.mp back
    simpa [same] using simple 'b' (same ▸ rfl)
  simp only [marked, newline, turn, tab, page, back, if_false]
  by_cases printable : (decide (0x20 ≤ c.toNat) && decide (c.toNat ≤ 0x7e)) = true
  · rw [if_pos printable]
    simp only [Bool.or_eq_true, decide_eq_true_eq, not_or] at marked
    simp only [Bool.and_eq_true, decide_eq_true_eq] at printable
    exact readChars_shown opening fuel c text chars final later printable.1 marked.1 marked.2
  rw [if_neg printable]
  by_cases small : c.toNat < 0x10000
  · rw [if_pos small]
    exact readChars_unit opening fuel c text chars final later small
  · rw [if_neg small]
    exact readChars_pair opening fuel c text chars final later (by omega)

omit later

theorem readChars_escaped (word rest : List Char) (enough : word.length < fuel) :
    readChars opening fuel (word.flatMap escape ++ '"' :: rest) = .ok (word, rest) := by
  induction word generalizing fuel with
  | nil =>
    cases fuel with
    | zero => cases enough
    | succ fuel => simp [readChars]
  | cons c word ih =>
    cases fuel with
    | zero => cases enough
    | succ fuel =>
      have later := ih fuel (by simpa using enough)
      rw [List.flatMap_cons, List.append_assoc]
      exact readChars_escape opening fuel c _ word rest later

theorem length_escape (c : Char) : 1 ≤ (escape c).length := by
  simp only [escape]
  repeat' split
  all_goals simp [escapeUnit]

/-- What is written between quotes reads back, whatever follows. -/
theorem readString_string (content : String) (rest : List Char) :
    ∃ text, (string content).toList ++ rest = '"' :: text ∧
      readString text = .ok (content, rest) := by
  have long : content.toList.length ≤ (content.toList.flatMap escape).length := by
    induction content.toList with
    | nil => exact Nat.le_refl 0
    | cons c word ih =>
      have one := length_escape c
      simp only [List.flatMap_cons, List.length_append, List.length_cons]
      omega
  refine ⟨content.toList.flatMap escape ++ '"' :: rest, by simp [string], ?_⟩
  rw [readString, readChars_escaped _ _ _ _ (by simp only [List.length_append]; omega)]
  simp [bind, Except.bind, pure, Except.pure]

/-- A quoted text ends where its closing quote is, and no two texts are quoted alike. -/
theorem string_append_inj (left right : String) (leftRest rightRest : List Char)
    (same : (string left).toList ++ leftRest = (string right).toList ++ rightRest) :
    left = right ∧ leftRest = rightRest := by
  obtain ⟨leftText, leftSplit, leftRead⟩ := readString_string left leftRest
  obtain ⟨rightText, rightSplit, rightRead⟩ := readString_string right rightRest
  rw [leftSplit, rightSplit] at same
  rw [(List.cons.inj same).2, rightRead] at leftRead
  cases leftRead
  exact ⟨rfl, rfl⟩

theorem string_injective (left right : String) (same : string left = string right) :
    left = right :=
  (string_append_inj left right [] [] (by rw [same])).1

end Keymap.Json
