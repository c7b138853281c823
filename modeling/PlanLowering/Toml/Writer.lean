import PlanLowering.Toml.Quoted

/-!
Writing a TOML document line by line: headers, and keys with their values.
-/

namespace PlanLowering.TomlWriter

def header (name : String) : List Char :=
  '[' :: name.toList ++ [']', '\n']

def line (key : String) (value : List Char) : List Char :=
  key.toList ++ [' ', '=', ' '] ++ value ++ ['\n']

def text (s : String) : List Char :=
  TomlQuotes.written s

def word (n : UInt64) : List Char :=
  (Numeral.ofNat n.toNat).chars

def flag (b : Bool) : List Char :=
  if b then ['t', 'r', 'u', 'e'] else ['f', 'a', 'l', 's', 'e']

end PlanLowering.TomlWriter
