/-!
# Positions in encoded text

Offsets into a program count the bytes of its UTF-8 encoding.
-/

namespace Procedural

/-- How many bytes the encoding of a text has. -/
def byteLength : List Char → Nat
  | [] => 0
  | c :: rest => c.utf8Size + byteLength rest

end Procedural
