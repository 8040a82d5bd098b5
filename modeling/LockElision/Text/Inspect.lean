/-!
# Inspection text

How values are shown to whoever looks inside the program: a record with its fields by name, a tuple
with its parts in brackets, a list. Parts come as texts, so a shape says nothing about their types.
-/

namespace LockElision.Inspect

def list (parts : List String) : String := "[" ++ ", ".intercalate parts ++ "]"

def tuple (name : String) (parts : List String) : String :=
  name ++ "(" ++ ", ".intercalate parts ++ ")"

def record (name : String) (fields : List (String × String)) : String :=
  name ++ " \x7b " ++ ", ".intercalate (fields.map fun (field, text) => field ++ ": " ++ text)
    ++ " \x7d"

def bool (b : Bool) : String := if b then "true" else "false"

end LockElision.Inspect
