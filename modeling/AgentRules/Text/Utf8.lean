import AgentRules.Text

/-!
# UTF-8

Bytes are read as UTF-8 strictly: no overlong forms, no surrogates, nothing above U+10FFFF. A
sequence that cannot be read is reported with its first byte, its place and the bytes that
could still have started a character.
-/

namespace AgentRules

abbrev Bytes := List UInt8

namespace Utf8

inductive Reason
  | start
  | continuation
  | shortage
  deriving DecidableEq, Repr

/-- A sequence that is not a character: its first byte, where it starts, how many bytes it has. -/
structure Fault where
  byte : UInt8
  position : Nat
  width : Nat
  reason : Reason
  deriving DecidableEq, Repr

def Reason.message : Reason → String
  | .start => "invalid start byte"
  | .continuation => "invalid continuation byte"
  | .shortage => "unexpected end of data"

def hexDigit (n : Nat) : Char := "0123456789abcdef".toList.getD n '0'

def Fault.message (f : Fault) : String :=
  let place :=
    if f.width ≤ 1 then
      let high := hexDigit (f.byte.toNat / 16)
      let low := hexDigit (f.byte.toNat % 16)
      s!"byte 0x{high}{low} in position {f.position}"
    else
      let last := f.position + f.width - 1
      s!"bytes in position {f.position}-{last}"
  s!"'utf-8' codec can't decode {place}: {f.reason.message}"

/-- The number of bytes of the character that a byte starts; none for a byte that starts none. -/
def width (b : Nat) : Nat :=
  if b < 0x80 then 1 else if b < 0xc2 then 0 else if b < 0xe0 then 2 else if b < 0xf0 then 3
  else if b < 0xf5 then 4 else 0

def leadBits (b : Nat) : Nat :=
  if b < 0x80 then b else if b < 0xe0 then b - 0xc0 else if b < 0xf0 then b - 0xe0 else b - 0xf0

def isTail (b : Nat) : Bool := 0x80 ≤ b && b < 0xc0

/-- Whether a byte may come second. After four leads the range is narrower, which keeps out
overlong forms, surrogates and values above U+10FFFF. -/
def isSecond (lead b : Nat) : Bool :=
  isTail b &&
    (if lead = 0xe0 then 0xa0 ≤ b else if lead = 0xed then b < 0xa0
     else if lead = 0xf0 then 0x90 ≤ b else if lead = 0xf4 then b < 0x90 else true)

/-- A character whose bytes have been read in part: the first byte and its place, how many bytes
have been read, and their bits. -/
structure Partial where
  lead : UInt8
  position : Nat
  seen : Nat
  bits : Nat

def Partial.fault (p : Partial) (reason : Reason) : Fault := ⟨p.lead, p.position, p.seen, reason⟩

def Partial.takes (p : Partial) (b : UInt8) : Bool :=
  if p.seen = 1 then isSecond p.lead.toNat b.toNat else isTail b.toNat

def Partial.add (p : Partial) (b : UInt8) : Partial :=
  { p with seen := p.seen + 1, bits := p.bits * 64 + b.toNat % 64 }

def decodeFrom : Nat → Option Partial → Bytes → Except Fault Text
  | _, none, [] => .ok []
  | _, some p, [] => .error (p.fault .shortage)
  | n, none, b :: r =>
    if width b.toNat = 0 then .error ⟨b, n, 1, .start⟩
    else if width b.toNat = 1 then (decodeFrom (n + 1) none r).map (Char.ofNat b.toNat :: ·)
    else decodeFrom (n + 1) (some ⟨b, n, 1, leadBits b.toNat⟩) r
  | n, some p, b :: r =>
    if !p.takes b then .error (p.fault .continuation)
    else if p.seen + 1 = width p.lead.toNat then
      (decodeFrom (n + 1) none r).map (Char.ofNat (p.add b).bits :: ·)
    else decodeFrom (n + 1) (some (p.add b)) r

def decode (bs : Bytes) : Except Fault Text := decodeFrom 0 none bs

def encodeChar (c : Char) : Bytes :=
  let n := c.toNat
  let tail (unit : Nat) : UInt8 := UInt8.ofNat (0x80 + n / unit % 64)
  if n < 0x80 then [UInt8.ofNat n]
  else if n < 0x800 then [UInt8.ofNat (0xc0 + n / 64), tail 1]
  else if n < 0x10000 then [UInt8.ofNat (0xe0 + n / 0x1000), tail 0x40, tail 1]
  else [UInt8.ofNat (0xf0 + n / 0x40000), tail 0x1000, tail 0x40, tail 1]

def encode (t : Text) : Bytes := t.flatMap encodeChar

end Utf8
end AgentRules
