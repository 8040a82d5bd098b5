/-!
# Unsigned numbers

Reading a number below a limit from decimal digits, with an optional plus sign. The first character
that cannot be used decides what is wrong: it is no digit, or it carries the number past the limit.
-/

namespace LockElision

inductive NumberFault where
  | empty
  | invalidDigit
  | tooLarge
  deriving DecidableEq, Repr

def NumberFault.message : NumberFault → String
  | empty => "cannot parse integer from empty string"
  | invalidDigit => "invalid digit found in string"
  | tooLarge => "number too large to fit in target type"

namespace Unsigned

/-- Reads digits on top of the number read so far, which stays below `limit`. -/
def digits (limit : Nat) : Nat → List Char → Except NumberFault Nat
  | n, [] => .ok n
  | n, c :: cs =>
    if c.isDigit then
      let n := n * 10 + (c.toNat - '0'.toNat)
      if n < limit then digits limit n cs else .error .tooLarge
    else .error .invalidDigit

/-- The number a text stands for. A sign alone is no number. -/
def parse (limit : Nat) : List Char → Except NumberFault Nat
  | [] => .error .empty
  | ['+'] => .error .invalidDigit
  | '+' :: cs => digits limit 0 cs
  | cs => digits limit 0 cs

end Unsigned

end LockElision
