import LockElision.Number.Layout

/-!
# Compact JSON text

JSON text without spaces: members in the order given, strings with as few escapes as JSON allows,
and doubles by their shortest digits.
-/

namespace LockElision.Json

def escapedChar (c : Char) : List Char :=
  match c with
  | '"' => ['\\', '"']
  | '\\' => ['\\', '\\']
  | '\x08' => ['\\', 'b']
  | '\x0c' => ['\\', 'f']
  | '\n' => ['\\', 'n']
  | '\r' => ['\\', 'r']
  | '\t' => ['\\', 't']
  | c =>
    if c.toNat < 0x20 then
      ['\\', 'u', '0', '0', (c.toNat / 16).digitChar, (c.toNat % 16).digitChar]
    else [c]

def compactString (s : String) : String :=
  String.ofList ('"' :: (s.toList.flatMap escapedChar ++ ['"']))

def compactObject (members : List (String × String)) : String :=
  "\x7b" ++ ",".intercalate (members.map fun (key, text) => compactString key ++ ":" ++ text)
    ++ "\x7d"

def compactBool (b : Bool) : String := if b then "true" else "false"

def compactNat (n : Nat) : String := toString n

/-- What is no number, or has no bounds, is written as nothing. -/
def compactDouble (x : Float) : String :=
  match Double.ofFloat x with
  | .finite negative units exponent => DoubleLayout.finite ⟨-5, 16, true⟩ negative units exponent
  | _ => "null"

end LockElision.Json
