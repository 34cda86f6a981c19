/-!
# Decoding UTF-8 that may be broken

Content files are read whatever their bytes are.  `decodeLossy` turns a sequence of bytes into
characters; where the bytes are not UTF-8, every longest piece that could have begun a character
becomes one replacement character, and so does every byte that could not.

The decoder goes from byte to byte.  Between two bytes it is either at the beginning of a character
or inside one; in the second case a `Partial` says how many bytes are missing and which values the
next of them may take.  The first bytes `E0`, `ED`, `F0` and `F4` narrow that range, which keeps out
overlong forms, surrogates and code points past the last one.
-/

namespace UtilityCss.Text

/-- The character that stands for bytes that cannot be decoded. -/
def replacement : Char := '\uFFFD'

/-- A character of which some bytes were read. -/
structure Partial where
  value : Nat
  /-- How many bytes are missing. -/
  missing : Nat
  /-- The least value the next byte may have. -/
  low : Nat
  /-- The greatest value the next byte may have. -/
  high : Nat
  deriving DecidableEq, Repr

/-- What is known after the first byte of a character that has several. -/
def Partial.ofLead? (byte : Nat) : Option Partial :=
  if 0xC2 ≤ byte && byte ≤ 0xDF then some ⟨byte - 0xC0, 1, 0x80, 0xBF⟩
  else if byte == 0xE0 then some ⟨0, 2, 0xA0, 0xBF⟩
  else if byte == 0xED then some ⟨0xD, 2, 0x80, 0x9F⟩
  else if 0xE1 ≤ byte && byte ≤ 0xEF then some ⟨byte - 0xE0, 2, 0x80, 0xBF⟩
  else if byte == 0xF0 then some ⟨0, 3, 0x90, 0xBF⟩
  else if 0xF1 ≤ byte && byte ≤ 0xF3 then some ⟨byte - 0xF0, 3, 0x80, 0xBF⟩
  else if byte == 0xF4 then some ⟨4, 3, 0x80, 0x8F⟩
  else none

/-- Whether a byte can be the next one of a character. -/
def Partial.accepts (p : Partial) (byte : Nat) : Bool :=
  p.low ≤ byte && byte ≤ p.high

/-- What is known after another byte. -/
def Partial.push (p : Partial) (byte : Nat) : Partial :=
  ⟨p.value * 64 + (byte - 0x80), p.missing - 1, 0x80, 0xBF⟩

/-- What one byte adds at the beginning of a character: finished characters, and the character
begun. -/
def firstByte (byte : Nat) : List Char × Option Partial :=
  if byte < 0x80 then ([Char.ofNat byte], none)
  else
    match Partial.ofLead? byte with
    | some p => ([], some p)
    | none => ([replacement], none)

/-- What one byte adds: finished characters, and the character begun. -/
def nextByte (state : Option Partial) (byte : Nat) : List Char × Option Partial :=
  match state with
  | none => firstByte byte
  | some p =>
    if p.accepts byte then
      let p := p.push byte
      if p.missing == 0 then ([Char.ofNat p.value], none) else ([], some p)
    else
      let (chars, state) := firstByte byte
      (replacement :: chars, state)

/-- The characters of a sequence of bytes, read from a state. -/
def decodeFrom (state : Option Partial) : List UInt8 → List Char
  | [] => if state.isSome then [replacement] else []
  | byte :: rest =>
    let (chars, state) := nextByte state byte.toNat
    chars ++ decodeFrom state rest

/-- The text of a sequence of bytes, with replacement characters where it is not UTF-8. -/
def decodeLossy (bytes : ByteArray) : String :=
  String.ofList (decodeFrom none bytes.toList)

end UtilityCss.Text
