import EarlyExit.Text.Printable

/-!
# Quoted text

A text between double quotes.  Printable characters stand for themselves; the
quote, the backslash and what cannot be printed are written as escapes.
-/

namespace EarlyExit.Text

def hexDigit (n : Nat) : Char :=
  if n < 10 then Char.ofNat (48 + n) else Char.ofNat (87 + n)

/-- The last `width` hexadecimal digits of a number. -/
def hex : Nat -> Nat -> String
  | 0, _ => ""
  | width + 1, n => (hex width (n / 16)).push (hexDigit (n % 16))

def escapeChar (c : Char) : String :=
  if c == '"' then "\\\""
  else if c == '\\' then "\\\\"
  else if isPrintable c then String.singleton c
  else
    match c.toNat with
    | 0x07 => "\\a"
    | 0x08 => "\\b"
    | 0x0c => "\\f"
    | 0x0a => "\\n"
    | 0x0d => "\\r"
    | 0x09 => "\\t"
    | 0x0b => "\\v"
    | n =>
        if n < 0x20 || n == 0x7f then "\\x" ++ hex 2 n
        else if n < 0x10000 then "\\u" ++ hex 4 n
        else "\\U" ++ hex 8 n

def quote (s : String) : String :=
  "\"" ++ String.join (s.toList.map escapeChar) ++ "\""

end EarlyExit.Text
