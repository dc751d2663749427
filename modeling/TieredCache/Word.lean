/-!
# Words of 64 bits

Sums and products of words wrap.  A rotation moves the bits that leave at one
end in at the other.
-/

namespace TieredCache.Word

/-- The amount counts modulo 64. -/
def rotateLeft (word amount : UInt64) : UInt64 :=
  (word <<< (amount % 64)) ||| (word >>> ((64 - amount % 64) % 64))

end TieredCache.Word
