import Keymap.Binding.Concrete
import Keymap.Proofs.Expr.Spacing
import Keymap.Schema.Specification

/-!
The guard of a mode. The name of the mode is put between quotes as it is, so the guard is read as
the comparison with this name exactly if the name holds no quote, no backslash and no equals sign
that stands alone (`modeGuard_compares_iff`).
-/

set_option autoImplicit false

namespace Keymap.Expr

section Strings

theorem unescape_plain {body : List Char} (plain : '\\' ∉ body) : unescape body = body := by
  induction body with
  | nil => rfl
  | cons c rest ih =>
    rw [List.mem_cons, not_or] at plain
    rw [unescape_cons (Ne.symm plain.1), ih plain.2]

/-- Each backslash that takes a character along makes the content shorter. -/
theorem unescape_length {quote : Char} {body : List Char} (held : IsQuotable quote body) :
    (unescape body).length ≤ body.length ∧
      ('\\' ∈ body → (unescape body).length < body.length) := by
  induction held with
  | nothing => exact ⟨Nat.le_refl 0, nofun⟩
  | @plain c rest _ unescaped _ ih =>
    rw [unescape_cons unescaped]
    refine ⟨Nat.succ_le_succ ih.1, fun member => Nat.succ_lt_succ (ih.2 ?_)⟩
    exact (List.mem_cons.mp member).resolve_left (Ne.symm unescaped)
  | @escaped c rest _ _ ih =>
    obtain ⟨meant, same⟩ : ∃ meant, unescape ('\\' :: c :: rest) = meant :: unescape rest :=
      ⟨_, rfl⟩
    rw [same]
    simp only [List.length_cons]
    omega

theorem quotable_plain {body : List Char} (inside : '\'' ∉ body) (plain : '\\' ∉ body) :
    IsQuotable '\'' body := by
  induction body with
  | nil => exact .nothing
  | cons c rest ih =>
    rw [List.mem_cons, not_or] at inside plain
    exact .plain (Ne.symm inside.1) (Ne.symm plain.1) (ih inside.2 plain.2)

theorem unquoted {quote : Char} {body : List Char} (held : IsQuotable quote body)
    (plain : '\\' ∉ body) : quote ∉ body := by
  induction held with
  | nothing => exact List.not_mem_nil
  | @plain c rest inside _ _ ih =>
    rw [List.mem_cons, not_or] at plain ⊢
    exact ⟨Ne.symm inside, ih plain.2⟩
  | escaped _ _ _ => exact absurd List.mem_cons_self plain

/-- A content means itself only without backslashes. -/
theorem unescape_self {quote : Char} {body : List Char} (held : IsQuotable quote body)
    (same : unescape body = body) : '\\' ∉ body := by
  intro member
  have shorter := (unescape_length held).2 member
  rw [same] at shorter
  exact Nat.lt_irrefl _ shorter

def quoted (content : List Char) : List Char := '\'' :: (content ++ ['\''])

theorem stringContent_quoted (content : List Char) :
    stringContent (quoted content) = String.ofList (unescape content) := by
  have inner : ((quoted content).drop 1).dropLast = content := by
    rw [quoted, List.drop_succ_cons, List.drop_zero, List.dropLast_concat]
  rw [stringContent, inner]
  rfl

/-- Quotes do not change whether an equals sign stands alone. -/
theorem loneEquals_quoted (content : List Char) :
    HasLoneEquals (quoted content) ↔ HasLoneEquals content := by
  have ends (previous : Option Char) :
      assignsAfter previous (content ++ ['\'']) = assignsAfter previous content := by
    induction content generalizing previous with
    | nil => rfl
    | cons c rest ih =>
      rw [List.cons_append, assignsAfter, assignsAfter, ih]
      cases rest <;> rfl
  have starts : assignsAfter (some '\'') content = assignsAfter none content := by
    cases content <;> rfl
  rw [← assigns_iff, ← assigns_iff, assigns, assigns, quoted, assignsAfter, ends, starts]
  simp

/-- Behind an opening quote stands a string. -/
theorem lexes_quote {rest : List Char} {pieces : List Piece}
    (lexes : Lexes .operand ('\'' :: rest) pieces) :
    ∃ body tail others, pieces = ⟨.string, quoted body⟩ :: others ∧ rest = body ++ '\'' :: tail ∧
      IsQuotable '\'' body ∧ Lexes .operator tail others := by
  generalize whole : '\'' :: rest = text at lexes
  cases lexes with
  | nothing => cases whole
  | blank space _ =>
    obtain ⟨rfl, _⟩ := List.cons.inj whole
    exact absurd space (by decide)
  | @piece _ piece tail others leads more =>
    obtain ⟨terminal, part⟩ := piece
    obtain ⟨c, letters, written, _⟩ := matches_head leads.fits
    dsimp only at written whole more
    subst written
    obtain ⟨rfl, same⟩ := List.cons.inj whole
    obtain rfl : terminal = .string := string_of_kind (kind_of_token leads.due leads.fits).symm
    generalize written : '\'' :: letters = part at leads
    have fits : IsString part := leads.fits
    cases fits with
    | @quoted quote body quotes held =>
      obtain ⟨rfl, rfl⟩ := List.cons.inj written
      exact ⟨body, tail, others, rfl, by simpa using same, held, more⟩
    | raw _ => cases written

end Strings

section Comparison

/-- The comparison of the mode in a namespace with a name. -/
def modeIs (space mode : String) : Expr :=
  .binary .equal (.member (.name space) "mode") (.constant (.text mode))

/-- The value of the comparison where the mode has a name. -/
theorem modeIs_value (space mode shown : String) :
    (modeIs space mode).evaluate [(space, .object [("mode", .text shown)])] =
      .ok (.bool (shown == mode)) := by
  have found : Fields.get? space [(space, .object [("mode", .text shown)])] =
      some (.object [("mode", .text shown)]) := if_pos rfl
  simp only [modeIs, evaluate, found]
  rfl

/-- The tokens before the string. -/
def modePieces (space : String) : List Piece :=
  [⟨.name, space.toList⟩, .mark .dot, ⟨.name, ['m', 'o', 'd', 'e']⟩, .mark .equal]

theorem derives_modeIs (space : String) (text : List Char) :
    Derives 0 (modePieces space ++ [⟨.string, text⟩]) (modeIs space (stringContent text)) := by
  have target : Derives 8 [⟨.name, space.toList⟩] (.name space) := by
    have name := Derives.name space.toList
    rw [String.ofList_toList] at name
    exact name.lower (by decide)
  have member : Derives 3 [⟨.name, space.toList⟩, .mark .dot, ⟨.name, ['m', 'o', 'd', 'e']⟩]
      (.member (.name space) "mode") :=
    (Derives.member ['m', 'o', 'd', 'e'] target).lower (by decide)
  have string : Derives 4 [⟨.string, text⟩] (.constant (.text (stringContent text))) :=
    (Derives.string text).lower (by decide)
  exact (Derives.binary .equal member string).lower (Nat.zero_le _)

/-- Whatever stands behind them, the tokens before the string are read first. -/
theorem lexes_modePieces_iff (space : String) (named : IsName space.toList)
    (free : space ∉ keywords) (text : List Char) (pieces : List Piece) :
    Lexes .operand (space.toList ++ (".mode == ".toList ++ text)) pieces ↔
      ∃ others, pieces = modePieces space ++ others ∧ Lexes .operand text others := by
  have name : Leads .operand ⟨.name, space.toList⟩ (".mode == ".toList ++ text) := by
    refine (scan_iff_leads _).mpr ⟨?_, trivial⟩
    have stops : ∀ c, (".mode == ".toList ++ text).head? = some c → continuesName c = false := by
      rintro c ⟨⟩
      decide
    rw [scan_named .operand named stops, wordTerminal, keyword?_of_name space free]
    rfl
  have point : Leads .operator (.mark .dot) ("mode == ".toList ++ text) :=
    (scan_iff_leads _).mpr ⟨rfl, due_operator (by decide)⟩
  have member : Leads .member ⟨.name, ['m', 'o', 'd', 'e']⟩ (" == ".toList ++ text) :=
    (scan_iff_leads _).mpr ⟨rfl, rfl⟩
  have equal : Leads .operator (.mark .equal) (' ' :: text) :=
    (scan_iff_leads _).mpr ⟨rfl, due_operator (by decide)⟩
  constructor
  · intro lexes
    obtain ⟨_, rfl, afterName⟩ := (lexes_piece_iff name).mp lexes
    obtain ⟨_, rfl, afterPoint⟩ := (lexes_piece_iff point).mp afterName
    obtain ⟨_, rfl, afterMember⟩ := (lexes_piece_iff member).mp afterPoint
    obtain ⟨others, rfl, afterEqual⟩ :=
      (lexes_piece_iff equal).mp ((lexes_blank_iff rfl _).mp afterMember)
    exact ⟨others, rfl, (lexes_blank_iff rfl text).mp afterEqual⟩
  · rintro ⟨others, rfl, lexes⟩
    exact .piece name (.piece point (.piece member (.blank rfl (.piece equal (.blank rfl lexes)))))

end Comparison

end Keymap.Expr

namespace Keymap

open Keymap.Expr

section Guards

variable (options : Options) (mode : String)

/-- A name that means itself between quotes and does not look like an assignment. -/
def PlainMode (mode : String) : Prop :=
  '\'' ∉ mode.toList ∧ '\\' ∉ mode.toList ∧ ¬ HasLoneEquals mode.toList

/-- The guard of a mode is true in this mode and false in every other. -/
def GuardsMode (options : Options) (mode : String) : Prop :=
  ∀ shown : String, Expr.valueOf (modeGuard options mode).text
    [(options.context, .object [("mode", .text shown)])] = .ok (.ok (.bool (shown == mode)))

theorem modeGuard_text : (modeGuard options mode).text.toList =
    options.context.toList ++ (".mode == ".toList ++ quoted mode.toList) := by
  simp [modeGuard, Guard.ofText, quoted]

variable {options mode} (named : IsName options.context.toList)
  (free : options.context ∉ keywords)

include named free

/-- The guard of a mode is read as a comparison with what its name means between quotes. -/
theorem modeGuard_read (held : IsQuotable '\'' mode.toList)
    (alone : ¬ HasLoneEquals mode.toList) : Expr.parse (modeGuard options mode).text.toList =
      .ok (modeIs options.context (String.ofList (unescape mode.toList))) := by
  have string : Leads .operand ⟨.string, quoted mode.toList⟩ [] :=
    (scan_iff_leads []).mpr
      ⟨scan_of_string (.quoted (by decide) held) (List.prefix_append _ []), trivial⟩
  have lexes : Lexes .operand (quoted mode.toList) [⟨.string, quoted mode.toList⟩] := by
    have whole := Lexes.piece string (.nothing _)
    rwa [List.append_nil] at whole
  have derives := derives_modeIs options.context (quoted mode.toList)
  rw [stringContent_quoted] at derives
  rw [modeGuard_text]
  refine (parse_ok_iff _ _).mpr ⟨_, (lexes_modePieces_iff _ named free _ _).mpr ⟨_, rfl, lexes⟩,
    derives, ?_, show 3 ≤ maxDepth by decide, ?_⟩
  · simpa [modePieces, Piece.mark, loneEquals_quoted] using alone
  · simp [modePieces, Piece.mark, Piece.Overlong]

/-- What is accepted as the guard of a mode starts with a comparison with a string, over at the
first quote in the name that no backslash stands before. -/
theorem modeGuard_parts {expr : Expr}
    (accepted : Expr.parse (modeGuard options mode).text.toList = .ok expr) :
    ∃ body tail others, mode.toList ++ ['\''] = body ++ '\'' :: tail ∧ IsQuotable '\'' body ∧
      ¬ HasLoneEquals body ∧
      Derives 0 (modePieces options.context ++ ⟨.string, quoted body⟩ :: others) expr := by
  rw [modeGuard_text] at accepted
  obtain ⟨pieces, lexes, derives, alone, _⟩ := (parse_ok_iff _ _).mp accepted
  obtain ⟨_, rfl, rest⟩ := (lexes_modePieces_iff _ named free _ _).mp lexes
  obtain ⟨body, tail, others, rfl, same, held, _⟩ := lexes_quote rest
  have own := alone ⟨.string, quoted body⟩ (by simp) rfl
  rw [loneEquals_quoted] at own
  exact ⟨body, tail, others, same, held, own, derives⟩

theorem plainMode_of_read
    (accepted : Expr.parse (modeGuard options mode).text.toList =
      .ok (modeIs options.context mode)) : PlainMode mode := by
  obtain ⟨body, tail, others, same, held, alone, derives⟩ := modeGuard_parts named free accepted
  have content : unescape body = mode.toList := by
    have first : [Constant.text mode] = .text (stringContent (quoted body)) ::
        others.filterMap Piece.constant? := constants_of_derives derives
    rw [stringContent_quoted] at first
    rw [Constant.text.inj (List.cons.inj first).1, String.toList_ofList]
  have sizes := congrArg List.length same
  simp only [List.length_append, List.length_cons, List.length_nil] at sizes
  have shorter := (unescape_length held).1
  rw [content] at shorter
  obtain rfl : tail = [] := List.length_eq_zero_iff.mp (by omega)
  obtain whole : mode.toList = body := List.append_cancel_right same
  rw [whole] at content
  have plain := unescape_self held content
  rw [PlainMode, whole]
  exact ⟨unquoted held plain, plain, alone⟩

theorem guardsMode_of_plain (plain : PlainMode mode) :
    Expr.parse (modeGuard options mode).text.toList = .ok (modeIs options.context mode) ∧
      GuardsMode options mode := by
  obtain ⟨inside, unescaped, alone⟩ := plain
  have read := modeGuard_read named free (quotable_plain inside unescaped) alone
  rw [unescape_plain unescaped, String.ofList_toList] at read
  refine ⟨read, fun shown => ?_⟩
  rw [Expr.valueOf, read]
  dsimp only
  rw [modeIs_value]
  rfl

theorem plainMode_of_guards (inside : '\'' ∉ mode.toList) (guards : GuardsMode options mode) :
    PlainMode mode := by
  have value := guards mode
  cases outcome : Expr.parse (modeGuard options mode).text.toList with
  | error rejection =>
    rw [Expr.valueOf, outcome] at value
    cases rejection <;> cases value
  | ok expr =>
    obtain ⟨body, tail, others, same, held, alone, _⟩ := modeGuard_parts named free outcome
    obtain ⟨whole, _⟩ := (List.append_cons_inj_of_notMem inside List.not_mem_nil).mp same
    subst whole
    have read := modeGuard_read named free held alone
    rw [Expr.valueOf, read] at value
    dsimp only at value
    rw [modeIs_value] at value
    have meant : (mode == String.ofList (unescape mode.toList)) = true := by
      have truth := Value.bool.inj (Except.ok.inj (Except.ok.inj value))
      rwa [beq_self_eq_true] at truth
    refine ⟨inside, unescape_self held ?_, alone⟩
    rw [← String.toList_ofList (l := unescape mode.toList), ← eq_of_beq meant]

end Guards

/-- The guard of a mode is read as the comparison with its name exactly if the name is plain; then
it is true in this mode and in no other, and no name without a quote is guarded otherwise. -/
theorem modeGuard_compares_iff (options : Options) (mode : String)
    (named : IsName options.context.toList) (free : options.context ∉ keywords) :
    (Expr.parse (modeGuard options mode).text.toList = .ok (modeIs options.context mode) ↔
      PlainMode mode) ∧
    (PlainMode mode → GuardsMode options mode) ∧
    ('\'' ∉ mode.toList → GuardsMode options mode → PlainMode mode) :=
  ⟨⟨plainMode_of_read named free, fun plain => (guardsMode_of_plain named free plain).1⟩,
    fun plain => (guardsMode_of_plain named free plain).2, plainMode_of_guards named free⟩

/-- A name with double quotes, and with equals signs that do not stand alone. -/
theorem modeGuard_of_comparison : GuardsMode ⟨"mk", 3⟩ "\"==\" > 2" :=
  (modeGuard_compares_iff ⟨"mk", 3⟩ "\"==\" > 2"
    ⟨'m', ['k'], rfl, rfl, List.forall_mem_singleton.mpr rfl⟩ (by decide)).2.1
    ⟨by decide, by decide, by rw [← assigns_iff]; decide⟩

/-- The name of a mode may hold a quote; its guard is then no expression at all. -/
theorem modeGuard_quote_refused :
    Schema.readMode "mode[0]" (.object [("name", .text "it's")]) = .ok (.named "it's") ∧
      Expr.valueOf (modeGuard ⟨"mk", 3⟩ "it's").text
        [("mk", .object [("mode", .text "it's")])] =
      .ok (.error (.rejected "mk.mode == 'it's'" (.unexpected "NAME" "s" ⟨1, 16⟩))) :=
  ⟨rfl, rfl⟩

end Keymap
