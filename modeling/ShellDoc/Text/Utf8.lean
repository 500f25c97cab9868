import ShellDoc.Text.Basic

/-!
# Text as bytes

Writing gives each character its one to four bytes.  Reading takes the bytes one sequence at a time
and refuses the first sequence that is no character, naming where it starts, how many of its bytes
were still well formed, and what is wrong with it.
-/

namespace ShellDoc.Text

abbrev Bytes := List UInt8

/-- The bytes of one character. -/
def encodeChar (c : Char) : Bytes :=
  let n := c.toNat
  if n < 0x80 then [n.toUInt8]
  else if n < 0x800 then [(0xc0 + n / 0x40).toUInt8, (0x80 + n % 0x40).toUInt8]
  else if n < 0x10000 then
    [(0xe0 + n / 0x1000).toUInt8, (0x80 + n / 0x40 % 0x40).toUInt8, (0x80 + n % 0x40).toUInt8]
  else
    [(0xf0 + n / 0x40000).toUInt8, (0x80 + n / 0x1000 % 0x40).toUInt8,
      (0x80 + n / 0x40 % 0x40).toUInt8, (0x80 + n % 0x40).toUInt8]

def encode (s : Text) : Bytes := s.flatMap encodeChar

@[simp] theorem encode_nil : encode [] = [] := rfl

theorem encode_append (s t : Text) : encode (s ++ t) = encode s ++ encode t := by
  simp [encode]

/-- What is wrong with a sequence of bytes. -/
inductive Malformation where
  | startByte
  | continuationByte
  | endOfData
  deriving DecidableEq, Repr

/-- The first sequence that is no character: its offset, its first byte, the number of its bytes
that were read as well formed, and what is wrong. -/
structure Undecodable where
  offset : Nat
  byte : Nat
  length : Nat
  cause : Malformation
  deriving DecidableEq, Repr

/-- What a first byte announces: how many bytes follow, the bits it contributes, and the bounds of
the second byte, which exclude overlong forms, surrogates and numbers beyond the last character. -/
structure Lead where
  following : Nat
  bits : Nat
  low : Nat := 0x80
  high : Nat := 0xbf

def lead? (b : Nat) : Option Lead :=
  if b < 0x80 then some { following := 0, bits := b }
  else if b < 0xc2 then none
  else if b < 0xe0 then some { following := 1, bits := b - 0xc0 }
  else if b = 0xe0 then some { following := 2, bits := 0, low := 0xa0 }
  else if b = 0xed then some { following := 2, bits := b - 0xe0, high := 0x9f }
  else if b < 0xf0 then some { following := 2, bits := b - 0xe0 }
  else if b = 0xf0 then some { following := 3, bits := 0, low := 0x90 }
  else if b < 0xf4 then some { following := 3, bits := b - 0xf0 }
  else if b = 0xf4 then some { following := 3, bits := b - 0xf0, high := 0x8f }
  else none

/-- A sequence under way: where it began, its first byte, how many bytes were taken, how many are
still due, the bits so far, and the bounds of the next byte. -/
structure Pending where
  offset : Nat
  byte : Nat
  taken : Nat
  due : Nat
  bits : Nat
  low : Nat
  high : Nat

def Pending.fault (p : Pending) (cause : Malformation) : Undecodable :=
  ⟨p.offset, p.byte, p.taken, cause⟩

/-- Decodes from the byte at `offset` on, `pending` being the sequence it continues. -/
def decodeFrom (offset : Nat) (pending : Option Pending) :
    Bytes → Except Undecodable Text
  | [] =>
      match pending with
      | none => .ok []
      | some p => .error (p.fault .endOfData)
  | b :: bs =>
      match pending with
      | some p =>
          if p.low ≤ b.toNat && b.toNat ≤ p.high then
            let bits := p.bits * 0x40 + (b.toNat - 0x80)
            if p.due = 1 then
              (decodeFrom (offset + 1) none bs).map (Char.ofNat bits :: ·)
            else
              decodeFrom (offset + 1)
                (some { p with taken := p.taken + 1, due := p.due - 1, bits, low := 0x80,
                               high := 0xbf }) bs
          else .error (p.fault .continuationByte)
      | none =>
          match lead? b.toNat with
          | none => .error ⟨offset, b.toNat, 1, .startByte⟩
          | some l =>
              if l.following = 0 then
                (decodeFrom (offset + 1) none bs).map (Char.ofNat l.bits :: ·)
              else
                decodeFrom (offset + 1)
                  (some ⟨offset, b.toNat, 1, l.following, l.bits, l.low, l.high⟩) bs

def decode (bs : Bytes) : Except Undecodable Text := decodeFrom 0 none bs

namespace Malformation

def message : Malformation → Text
  | startByte => "invalid start byte"
  | continuationByte => "invalid continuation byte"
  | endOfData => "unexpected end of data"

end Malformation

namespace Undecodable

/-- A single byte is named with its value, several bytes by their positions only. -/
def message (u : Undecodable) : Text :=
  if u.length = 1 then
    concat ["'utf-8' codec can't decode byte 0x", hex 2 u.byte, " in position ", ofNat u.offset,
      ": ", u.cause.message]
  else
    concat ["'utf-8' codec can't decode bytes in position ", ofNat u.offset, "-",
      ofNat (u.offset + u.length - 1), ": ", u.cause.message]

/-- The same fault seen by a reader that hands over a sequence cut short at the end of the data on
its own, so that its position counts from the start of that sequence. -/
def atChunkEnd (u : Undecodable) : Undecodable :=
  match u.cause with
  | .endOfData => { u with offset := 0 }
  | _ => u

end Undecodable

end ShellDoc.Text
