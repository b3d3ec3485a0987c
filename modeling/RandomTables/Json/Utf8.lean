-- SUMMARY: UTF-8 bytes as code points, with the first position at which they are no UTF-8.

/-!
# UTF-8

Bytes become code points. The encoding of a surrogate is let through; any other sequence outside
the standard is refused at its first byte, with the reason.
-/
namespace RandomTables.Utf8

/-- Why bytes are no UTF-8. -/
inductive Fault where
  | invalidStart
  | invalidContinuation
  | unexpectedEnd
  deriving DecidableEq, Repr

def Fault.message : Fault → String
  | .invalidStart => "invalid start byte"
  | .invalidContinuation => "invalid continuation byte"
  | .unexpectedEnd => "unexpected end of data"

/-- Whether a byte may follow the first one of a sequence. -/
def isTail (b : Nat) : Bool := 0x80 ≤ b && b < 0xc0

/-- Whether the second byte of a sequence of three or four is one that its first byte allows. A
surrogate's second byte is allowed only where its third byte follows. -/
def isSecond (first second : Nat) (complete : Bool) : Bool :=
  isTail second &&
    (if first = 0xe0 then 0xa0 ≤ second
     else if first = 0xed then second < 0xa0 || complete
     else if first = 0xf0 then 0x90 ≤ second
     else if first = 0xf4 then second < 0x90
     else true)

/-- The code point at the start of some bytes and the number of its bytes. -/
def first : List Nat → Except Fault (Nat × Nat)
  | [] => .error .unexpectedEnd
  | a :: rest =>
    if a < 0x80 then .ok (a, 1)
    else if a < 0xc2 then .error .invalidStart
    else if a < 0xe0 then
      match rest with
      | [] => .error .unexpectedEnd
      | b :: _ =>
        if isTail b then .ok ((a - 0xc0) * 0x40 + (b - 0x80), 2) else .error .invalidContinuation
    else if a < 0xf0 then
      match rest with
      | [] => .error .unexpectedEnd
      | [b] => if isSecond a b false then .error .unexpectedEnd else .error .invalidContinuation
      | b :: c :: _ =>
        if isSecond a b (isTail c) && isTail c then
          .ok ((a - 0xe0) * 0x1000 + (b - 0x80) * 0x40 + (c - 0x80), 3)
        else .error .invalidContinuation
    else if a < 0xf5 then
      match rest with
      | [] => .error .unexpectedEnd
      | [b] => if isSecond a b false then .error .unexpectedEnd else .error .invalidContinuation
      | [b, c] =>
        if isSecond a b false && isTail c then .error .unexpectedEnd
        else .error .invalidContinuation
      | b :: c :: d :: _ =>
        if isSecond a b false && isTail c && isTail d then
          .ok ((a - 0xf0) * 0x40000 + (b - 0x80) * 0x1000 + (c - 0x80) * 0x40 + (d - 0x80), 4)
        else .error .invalidContinuation
    else .error .invalidStart

/-- The code points of some bytes, given the position of the first byte and the number of bytes of
the current sequence still to be passed over. -/
def decodeFrom : List Nat → Nat → Nat → Except (Nat × Fault) (List Nat)
  | [], _, _ => .ok []
  | _ :: rest, position, skip + 1 => decodeFrom rest (position + 1) skip
  | b :: rest, position, 0 =>
    match first (b :: rest) with
    | .error fault => .error (position, fault)
    | .ok (code, size) => (decodeFrom rest (position + 1) (size - 1)).map (code :: ·)

/-- The code points of some bytes, without a byte order mark. A fault comes with its position, which
does not count the mark. -/
def decode (bytes : List Nat) : Except (Nat × Fault) (List Nat) :=
  match bytes with
  | 0xef :: 0xbb :: 0xbf :: rest => decodeFrom rest 0 0
  | _ => decodeFrom bytes 0 0

end RandomTables.Utf8
