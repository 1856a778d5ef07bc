import TreeCheck.Text.Basic

/-!
# Texts as bytes

The system knows a path by its bytes, and they need not be UTF-8. A text stands for the UTF-8 of its
characters; a byte that is no part of a character is a surrogate from U+DC80 to U+DCFF, and the
other surrogates stand for no bytes.

Bytes are cut into characters and broken pieces. A broken piece is a byte that begins no character,
or the bytes that begin one, as far as they go.
-/

namespace TreeCheck

/-- The least of the surrogates that stand for bytes, less the byte it stands for. -/
def CodePoint.byteBase : Nat := 0xDC00

/-- The surrogate that stands for a byte. -/
def CodePoint.ofByte (b : UInt8) : CodePoint := .ofNat (byteBase + b.toNat)

/-- The bytes of a code point. -/
def CodePoint.bytes? : CodePoint → Option (List UInt8)
  | scalar c => some (String.utf8EncodeChar c)
  | surrogate half =>
    let n := (surrogate half).toNat
    if byteBase + 0x80 ≤ n ∧ n ≤ byteBase + 0xFF then some [UInt8.ofNat (n - byteBase)] else none

namespace Utf8

/-- What bytes are cut into. -/
inductive Piece where
  | character (c : Char)
  | broken (bytes : List UInt8)
deriving DecidableEq, Repr

/-- A character that has begun: the bytes so far and the bits in them, the number of bytes that are
missing, and the bounds of the next one. -/
structure Opened where
  bytes : List UInt8
  bits : Nat
  missing : Nat
  low : UInt8
  high : UInt8
deriving DecidableEq, Repr

/-- The character that a byte begins, if it has more bytes than this one. The bounds of the second
byte leave out surrogates, values that are too great, and spellings longer than needed. -/
def Opened.ofByte? (b : UInt8) : Option Opened :=
  if 0xC2 ≤ b ∧ b ≤ 0xDF then some ⟨[b], b.toNat - 0xC0, 1, 0x80, 0xBF⟩
  else if b = 0xE0 then some ⟨[b], 0x0, 2, 0xA0, 0xBF⟩
  else if b = 0xED then some ⟨[b], 0xD, 2, 0x80, 0x9F⟩
  else if 0xE1 ≤ b ∧ b ≤ 0xEF then some ⟨[b], b.toNat - 0xE0, 2, 0x80, 0xBF⟩
  else if b = 0xF0 then some ⟨[b], 0, 3, 0x90, 0xBF⟩
  else if b = 0xF4 then some ⟨[b], 4, 3, 0x80, 0x8F⟩
  else if 0xF1 ≤ b ∧ b ≤ 0xF3 then some ⟨[b], b.toNat - 0xF0, 3, 0x80, 0xBF⟩
  else none

/-- Take a byte where no character has begun. -/
def first (b : UInt8) : List Piece × Option Opened :=
  if b < 0x80 then ([.character (Char.ofNat b.toNat)], none)
  else
    match Opened.ofByte? b with
    | some o => ([], some o)
    | none => ([.broken [b]], none)

/-- Take a byte. -/
def step (state : Option Opened) (b : UInt8) : List Piece × Option Opened :=
  match state with
  | none => first b
  | some o =>
    if o.low ≤ b ∧ b ≤ o.high then
      let bits := o.bits * 64 + (b.toNat - 0x80)
      if o.missing ≤ 1 then ([.character (Char.ofNat bits)], none)
      else ([], some ⟨o.bytes ++ [b], bits, o.missing - 1, 0x80, 0xBF⟩)
    else
      let (pieces, state) := first b
      (.broken o.bytes :: pieces, state)

/-- Cut bytes into pieces. -/
def pieces (state : Option Opened) : List UInt8 → List Piece
  | [] => state.toList.map fun o ↦ .broken o.bytes
  | b :: rest => (step state b).1 ++ pieces (step state b).2 rest

end Utf8

namespace Text

/-- The bytes that a text stands for. -/
def bytes? (t : Text) : Option (List UInt8) := (t.mapM CodePoint.bytes?).map List.flatten

/-- The number of bytes that a text stands for; zero if it stands for none. -/
def byteLength (t : Text) : Nat := (t.bytes?.getD []).length

/-- The text that stands for bytes. -/
def ofBytes (bytes : List UInt8) : Text :=
  (Utf8.pieces none bytes).flatMap fun piece ↦
    match piece with
    | .character c => [.scalar c]
    | .broken bytes => bytes.map .ofByte

/-- Bytes as they are shown: U+FFFD takes the place of every broken piece. -/
def showBytes (bytes : List UInt8) : Text :=
  (Utf8.pieces none bytes).map fun piece ↦
    match piece with
    | .character c => .scalar c
    | .broken _ => .scalar '\ufffd'

/-- The text that stands for the same bytes and spells every character that they hold. Two names
are the same for the system if these texts are. -/
def canonical (t : Text) : Text := (t.bytes?.map ofBytes).getD t

/-- A text with U+FFFD for what is no character. -/
def replaceBroken (t : Text) : Text := (t.bytes?.map showBytes).getD t

end Text

end TreeCheck
