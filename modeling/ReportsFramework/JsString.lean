/-
The code units of a JavaScript string.
-/
import Mathlib.Data.Nat.Notation

namespace Js

def utf16Char (c : Char) : List ℕ :=
  if c.toNat < 0x10000 then [c.toNat]
  else [0xD800 + (c.toNat - 0x10000) / 0x400, 0xDC00 + (c.toNat - 0x10000) % 0x400]

/-- What a string is compared, measured and searched by. -/
def utf16 (s : String) : List ℕ :=
  s.toList.flatMap utf16Char

end Js
