import StaticLiteral.Text.Utf16

/-!
# UTF-8

Encoding of text, and decoding of arbitrary bytes. Ill-formed bytes are cut into maximal subparts
of well-formed sequences; each subpart is one `Fault`, and decoding writes U+FFFD for it.
-/

namespace StaticLiteral.Utf8

/-- The bytes of one code point, by its size class. -/
def encodePoint (c : CodePoint) : List UInt8 :=
  if c < 0x80 then [c.toUInt8]
  else if c < 0x800 then [(0xC0 + c / 0x40).toUInt8, (0x80 + c % 0x40).toUInt8]
  else if c < 0x10000 then
    [(0xE0 + c / 0x1000).toUInt8, (0x80 + c / 0x40 % 0x40).toUInt8, (0x80 + c % 0x40).toUInt8]
  else
    [(0xF0 + c / 0x40000).toUInt8, (0x80 + c / 0x1000 % 0x40).toUInt8,
      (0x80 + c / 0x40 % 0x40).toUInt8, (0x80 + c % 0x40).toUInt8]

/-- The bytes of a text. -/
def encode (t : Text) : List UInt8 := t.flatMap encodePoint

/-- Whether a text has bytes: one half of a surrogate pair has none. -/
def isEncodable (t : Text) : Bool := t.all fun c => !Text.isSurrogate c

/-- Why a subpart of the bytes is not well formed. -/
inductive Reason where
  | invalidStart
  | invalidContinuation
  | unexpectedEnd
  deriving DecidableEq

/-- What a decoding error calls the reason. -/
def Reason.text : Reason → String
  | .invalidStart => "invalid start byte"
  | .invalidContinuation => "invalid continuation byte"
  | .unexpectedEnd => "unexpected end of data"

/-- What stands at the front of some bytes: a code point, or the length of a maximal subpart that
is not well formed. -/
inductive Front where
  | point (c : CodePoint) (size : Nat)
  | bad (size : Nat) (reason : Reason)

/-- The length that a first byte announces and the range of its second byte. -/
def leadOf (b : UInt8) : Option (Nat × UInt8 × UInt8) :=
  if 0xC2 ≤ b && b ≤ 0xDF then some (2, 0x80, 0xBF)
  else if b == 0xE0 then some (3, 0xA0, 0xBF)
  else if b == 0xED then some (3, 0x80, 0x9F)
  else if 0xE1 ≤ b && b ≤ 0xEF then some (3, 0x80, 0xBF)
  else if b == 0xF0 then some (4, 0x90, 0xBF)
  else if 0xF1 ≤ b && b ≤ 0xF3 then some (4, 0x80, 0xBF)
  else if b == 0xF4 then some (4, 0x80, 0x8F)
  else none

/-- Reads the continuation bytes that are still `missing`, the next of them between `lo` and `hi`;
`value` and `size` are those of the bytes read so far. -/
def continueAt (value size : Nat) : Nat → UInt8 → UInt8 → List UInt8 → Front
  | 0, _, _, _ => .point value size
  | _ + 1, _, _, [] => .bad size .unexpectedEnd
  | missing + 1, lo, hi, b :: rest =>
    if lo ≤ b && b ≤ hi then
      continueAt (value * 0x40 + (b.toNat - 0x80)) (size + 1) missing 0x80 0xBF rest
    else .bad size .invalidContinuation

/-- What stands at the front of a non-empty list of bytes. -/
def front (b : UInt8) (rest : List UInt8) : Front :=
  if b < 0x80 then .point b.toNat 1
  else
    match leadOf b with
    | none => .bad 1 .invalidStart
    | some (size, lo, hi) =>
      let start :=
        if size == 2 then b.toNat - 0xC0 else if size == 3 then b.toNat - 0xE0 else b.toNat - 0xF0
      continueAt start 1 (size - 1) lo hi rest

/-- Decodes bytes; `skip` of them belong to what was read before. -/
def decodeFrom : Nat → List UInt8 → Text
  | _, [] => []
  | skip + 1, _ :: rest => decodeFrom skip rest
  | 0, b :: rest =>
    match front b rest with
    | .point c size => c :: decodeFrom (size - 1) rest
    | .bad size _ => 0xFFFD :: decodeFrom (size - 1) rest

/-- The text of some bytes, with U+FFFD for every maximal ill-formed subpart. -/
def decode (bytes : List UInt8) : Text := decodeFrom 0 bytes

/-- A maximal ill-formed subpart: where it starts, its bytes, and what is wrong. -/
structure Fault where
  position : Nat
  bytes : List UInt8
  reason : Reason

/-- The first ill-formed subpart of bytes that start at `position`, of which `skip` were read. -/
def faultFrom (position : Nat) : Nat → List UInt8 → Option Fault
  | _, [] => none
  | skip + 1, _ :: rest => faultFrom (position + 1) skip rest
  | 0, b :: rest =>
    match front b rest with
    | .point _ size => faultFrom (position + 1) (size - 1) rest
    | .bad size reason => some ⟨position, (b :: rest).take size, reason⟩

/-- The first ill-formed subpart, if there is one. -/
def fault? (bytes : List UInt8) : Option Fault := faultFrom 0 0 bytes

/-- A byte as two lower-case hexadecimal digits. -/
def hexByte (b : UInt8) : String :=
  String.ofList (Nat.toDigits 16 (b.toNat / 16) ++ Nat.toDigits 16 (b.toNat % 16))

/-- The message of a decoding error: one byte is shown, several are given by their positions. -/
def Fault.message (f : Fault) : String :=
  match f.bytes with
  | [b] =>
    "'utf-8' codec can't decode byte 0x" ++ hexByte b ++ " in position " ++ toString f.position
      ++ ": " ++ f.reason.text
  | bytes =>
    "'utf-8' codec can't decode bytes in position " ++ toString f.position ++ "-"
      ++ toString (f.position + bytes.length - 1) ++ ": " ++ f.reason.text

end StaticLiteral.Utf8
