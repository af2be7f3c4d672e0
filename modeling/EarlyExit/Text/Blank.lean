/-!
# Blanks

The characters of the White_Space property, and trimming by them.
-/

namespace EarlyExit.Text

def isBlank (c : Char) : Bool :=
  let n := c.toNat
  (decide (0x09 ≤ n) && decide (n ≤ 0x0d)) || n == 0x20 || n == 0x85 || n == 0xa0 ||
    n == 0x1680 || (decide (0x2000 ≤ n) && decide (n ≤ 0x200a)) || n == 0x2028 ||
    n == 0x2029 || n == 0x202f || n == 0x205f || n == 0x3000

def trimLeft (p : Char -> Bool) (s : String) : String :=
  String.ofList (s.toList.dropWhile p)

def trimRight (p : Char -> Bool) (s : String) : String :=
  String.ofList (s.toList.reverse.dropWhile p).reverse

def trim (s : String) : String :=
  trimRight isBlank (trimLeft isBlank s)

end EarlyExit.Text
