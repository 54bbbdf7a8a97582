import Keymap.Text.Words

/-!
The names that the Unicode standard gives to the ASCII characters, with the other names of the
control characters. Names are looked up in any case.
-/

set_option autoImplicit false

namespace Keymap.Text

def controlNames : List (String × Nat) :=
  [("NULL", 0x0), ("NUL", 0x0), ("START OF HEADING", 0x1), ("SOH", 0x1),
   ("START OF TEXT", 0x2), ("STX", 0x2), ("END OF TEXT", 0x3), ("ETX", 0x3),
   ("END OF TRANSMISSION", 0x4), ("EOT", 0x4), ("ENQUIRY", 0x5), ("ENQ", 0x5),
   ("ACKNOWLEDGE", 0x6), ("ACK", 0x6), ("ALERT", 0x7), ("BEL", 0x7), ("BACKSPACE", 0x8),
   ("BS", 0x8), ("CHARACTER TABULATION", 0x9), ("HORIZONTAL TABULATION", 0x9), ("HT", 0x9),
   ("TAB", 0x9), ("LINE FEED", 0xa), ("NEW LINE", 0xa), ("END OF LINE", 0xa), ("LF", 0xa),
   ("NL", 0xa), ("EOL", 0xa), ("LINE TABULATION", 0xb), ("VERTICAL TABULATION", 0xb),
   ("VT", 0xb), ("FORM FEED", 0xc), ("FF", 0xc), ("CARRIAGE RETURN", 0xd), ("CR", 0xd),
   ("SHIFT OUT", 0xe), ("LOCKING-SHIFT ONE", 0xe), ("SO", 0xe), ("SHIFT IN", 0xf),
   ("LOCKING-SHIFT ZERO", 0xf), ("SI", 0xf), ("DATA LINK ESCAPE", 0x10), ("DLE", 0x10),
   ("DEVICE CONTROL ONE", 0x11), ("DC1", 0x11), ("DEVICE CONTROL TWO", 0x12), ("DC2", 0x12),
   ("DEVICE CONTROL THREE", 0x13), ("DC3", 0x13), ("DEVICE CONTROL FOUR", 0x14), ("DC4", 0x14),
   ("NEGATIVE ACKNOWLEDGE", 0x15), ("NAK", 0x15), ("SYNCHRONOUS IDLE", 0x16), ("SYN", 0x16),
   ("END OF TRANSMISSION BLOCK", 0x17), ("ETB", 0x17), ("CANCEL", 0x18), ("CAN", 0x18),
   ("END OF MEDIUM", 0x19), ("EOM", 0x19), ("SUBSTITUTE", 0x1a), ("SUB", 0x1a),
   ("ESCAPE", 0x1b), ("ESC", 0x1b), ("INFORMATION SEPARATOR FOUR", 0x1c),
   ("FILE SEPARATOR", 0x1c), ("FS", 0x1c), ("INFORMATION SEPARATOR THREE", 0x1d),
   ("GROUP SEPARATOR", 0x1d), ("GS", 0x1d), ("INFORMATION SEPARATOR TWO", 0x1e),
   ("RECORD SEPARATOR", 0x1e), ("RS", 0x1e), ("INFORMATION SEPARATOR ONE", 0x1f),
   ("UNIT SEPARATOR", 0x1f), ("US", 0x1f), ("SP", 0x20), ("DELETE", 0x7f), ("DEL", 0x7f)]

def markNames : List (String × Nat) :=
  [("SPACE", 0x20), ("EXCLAMATION MARK", 0x21), ("QUOTATION MARK", 0x22),
   ("NUMBER SIGN", 0x23), ("DOLLAR SIGN", 0x24), ("PERCENT SIGN", 0x25), ("AMPERSAND", 0x26),
   ("APOSTROPHE", 0x27), ("LEFT PARENTHESIS", 0x28), ("RIGHT PARENTHESIS", 0x29),
   ("ASTERISK", 0x2a), ("PLUS SIGN", 0x2b), ("COMMA", 0x2c), ("HYPHEN-MINUS", 0x2d),
   ("FULL STOP", 0x2e), ("SOLIDUS", 0x2f), ("COLON", 0x3a), ("SEMICOLON", 0x3b),
   ("LESS-THAN SIGN", 0x3c), ("EQUALS SIGN", 0x3d), ("GREATER-THAN SIGN", 0x3e),
   ("QUESTION MARK", 0x3f), ("COMMERCIAL AT", 0x40), ("LEFT SQUARE BRACKET", 0x5b),
   ("REVERSE SOLIDUS", 0x5c), ("RIGHT SQUARE BRACKET", 0x5d), ("CIRCUMFLEX ACCENT", 0x5e),
   ("LOW LINE", 0x5f), ("GRAVE ACCENT", 0x60), ("LEFT CURLY BRACKET", 0x7b),
   ("VERTICAL LINE", 0x7c), ("RIGHT CURLY BRACKET", 0x7d), ("TILDE", 0x7e)]

def digitNames : List (String × Nat) :=
  (["ZERO", "ONE", "TWO", "THREE", "FOUR", "FIVE", "SIX", "SEVEN", "EIGHT", "NINE"].zipIdx).map
    fun (name, digit) => ("DIGIT " ++ name, 0x30 + digit)

/-- The names of the letters of an alphabet that starts at a code. -/
def letterNames (kind : String) (first : Nat) : List (String × Nat) :=
  (List.range 26).map fun index =>
    ("LATIN " ++ kind ++ " LETTER " ++ String.ofList [Char.ofNat (0x41 + index)], first + index)

def characterNames : List (String × Nat) :=
  controlNames ++ markNames ++ digitNames ++ letterNames "CAPITAL" 0x41 ++
    letterNames "SMALL" 0x61

/-- The code of an ASCII character by its name. -/
def named? (name : List Char) : Option Nat :=
  characterNames.lookup (String.ofList (name.map Char.toUpper))

end Keymap.Text
