import EarlyExit.Data.Basic
import EarlyExit.Text.Quoted

/-!
# Writing plain data

The flow form that the reader reads, on one line.
-/

namespace EarlyExit.Data

def escapeText (c : Char) : String :=
  if c == '"' then "\\\""
  else if c == '\\' then "\\\\"
  else if c.toNat < 0x20 then "\\u" ++ Text.hex 4 c.toNat
  else String.singleton c

def quoted (s : String) : String :=
  "\"" ++ String.join (s.toList.map escapeText) ++ "\""

mutual

def render : Data -> String
  | .null => "null"
  | .bool b => if b then "true" else "false"
  | .number t => t
  | .str s => quoted s
  | .list xs => "[" ++ ",".intercalate (renderItems xs) ++ "]"
  | .map es => "\x7b" ++ ",".intercalate (renderEntries es) ++ "\x7d"

def renderItems : List Data -> List String
  | [] => []
  | x :: rest => render x :: renderItems rest

def renderEntries : List (String × Data) -> List String
  | [] => []
  | (key, x) :: rest => (quoted key ++ ":" ++ render x) :: renderEntries rest

end

end EarlyExit.Data
