/-!
The SHA-1 digest of a text's UTF-8 bytes, written as forty hexadecimal digits. It names guards,
bindings and files in the compiled output.
-/

set_option autoImplicit false

namespace Keymap.Text.Digest

structure Chain where
  a : UInt32
  b : UInt32
  c : UInt32
  d : UInt32
  e : UInt32

def start : Chain := ⟨0x67452301, 0xefcdab89, 0x98badcfe, 0x10325476, 0xc3d2e1f0⟩

def rotateLeft (word amount : UInt32) : UInt32 :=
  (word <<< amount) ||| (word >>> (32 - amount))

/-- A one bit, zeros up to eight bytes short of a block, and the length in bits. -/
def padding (size : Nat) : List UInt8 :=
  let zeros := (119 - size % 64) % 64
  let bits := size * 8
  (0x80 : UInt8) :: List.replicate zeros (0 : UInt8) ++
    (List.range 8).map fun index => UInt8.ofNat (bits >>> (8 * (7 - index)))

def wordAt (bytes : ByteArray) (offset : Nat) : UInt32 :=
  (List.range 4).foldl (fun word index =>
    (word <<< 8) ||| (bytes.data.getD (offset + index) 0).toUInt32) 0

/-- The sixteen words of a block, stretched to eighty. -/
def schedule (bytes : ByteArray) (offset : Nat) : Array UInt32 :=
  let block := ((List.range 16).map fun index => wordAt bytes (offset + 4 * index)).toArray
  (List.range 64).foldl (fun words index =>
    let earlier (back : Nat) := words.getD (index + 16 - back) 0
    words.push (rotateLeft (earlier 3 ^^^ earlier 8 ^^^ earlier 14 ^^^ earlier 16) 1)) block

def mixing (step : Nat) (chain : Chain) : UInt32 × UInt32 :=
  let { b, c, d, .. } := chain
  if step < 20 then ((b &&& c) ||| ((~~~b) &&& d), 0x5a827999)
  else if step < 40 then (b ^^^ c ^^^ d, 0x6ed9eba1)
  else if step < 60 then ((b &&& c) ||| (b &&& d) ||| (c &&& d), 0x8f1bbcdc)
  else (b ^^^ c ^^^ d, 0xca62c1d6)

def step (words : Array UInt32) (chain : Chain) (index : Nat) : Chain :=
  let (mixed, constant) := mixing index chain
  let front := rotateLeft chain.a 5 + mixed + chain.e + constant + words.getD index 0
  ⟨front, chain.a, rotateLeft chain.b 30, chain.c, chain.d⟩

def compress (bytes : ByteArray) (chain : Chain) (block : Nat) : Chain :=
  let mixed := (List.range 80).foldl (step (schedule bytes (64 * block))) chain
  ⟨chain.a + mixed.a, chain.b + mixed.b, chain.c + mixed.c, chain.d + mixed.d,
    chain.e + mixed.e⟩

def hexDigit (value : Nat) : Char :=
  if value < 10 then Char.ofNat (0x30 + value) else Char.ofNat (0x57 + value)

/-- The lowest `width` hexadecimal digits of a number, highest first. -/
def hexDigits (width value : Nat) : List Char :=
  (List.range width).map fun index => hexDigit (value >>> (4 * (width - 1 - index)) % 16)

def ofText (text : String) : String :=
  let message := text.toUTF8
  let bytes := message ++ ⟨(padding message.size).toArray⟩
  let last := (List.range (bytes.size / 64)).foldl (compress bytes) start
  String.ofList ([last.a, last.b, last.c, last.d, last.e].flatMap fun word =>
    hexDigits 8 word.toNat)

end Keymap.Text.Digest
