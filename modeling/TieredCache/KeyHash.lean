import TieredCache.Bytes
import TieredCache.Word

/-!
# Hashing keys

A key is hashed by folding 128-bit products: each step multiplies two words and
xors the halves of the product.  The four words that seed the hash are fixed, so
a key has the same hash in every run.  Constants come first in sums and products,
where a number that is not known yet keeps them from unfolding.
-/

namespace TieredCache.KeyHash

/-- The low half of a product xor its high half. -/
def foldedProduct (a b : UInt64) : UInt64 :=
  let product := a.toNat * b.toNat
  (UInt64.ofNat product) ^^^ (UInt64.ofNat (product / UInt64.size))

def multiplier : UInt64 := 6364136223846793005

def key0 : UInt64 := 0x243f6a8885a308d3 ^^^ 0x452821e638d01377
def key1 : UInt64 := 0x13198a2e03707344 ^^^ 0xbe5466cf34e90c6c
def key2 : UInt64 := 0xa4093822299f31d0 ^^^ 0xc0ac29b7c97c50dd
def key3 : UInt64 := 0x082efa98ec4e6c89 ^^^ 0x3f84d5b5b5470917

def mixLength (state : UInt64) (n : UInt64) : UInt64 :=
  foldedProduct multiplier (n ^^^ state)

def mixPair (state low high : UInt64) : UInt64 :=
  Word.rotateLeft ((key0 + state) ^^^ foldedProduct (key2 ^^^ low) (key3 ^^^ high)) 23

/-- A word from at most eight bytes, least significant first. -/
def word (bytes : Bytes) : UInt64 := UInt64.ofNat bytes.toNatLE

def mixBlock (state : UInt64) (block : Bytes) : UInt64 :=
  mixPair state (word (block.take 8)) (word (block.drop 8))

def mixBlocks : Nat → UInt64 → Bytes → UInt64
  | 0, state, _ => state
  | count + 1, state, bytes =>
      mixBlocks count (mixBlock state (bytes.take 16)) (bytes.drop 16)

/-- Mixes a byte string into the state.  A long one gives its last sixteen bytes
first, then its blocks until at most sixteen remain; in a short one the first
and the last bytes may overlap. -/
def mixBytes (state : UInt64) (bytes : Bytes) : UInt64 :=
  let n := bytes.length
  let ends (width : Nat) : UInt64 :=
    mixPair state (word (bytes.take width)) (word (bytes.drop (n - width)))
  if 16 < n then
    mixBlocks ((n - 1) / 16) (mixBlock state (bytes.drop (n - 16))) bytes
  else if 8 < n then ends 8
  else if 3 < n then ends 4
  else if 1 < n then
    mixPair state (word (bytes.take 2)) (word (bytes.drop (n - 1)))
  else ends 1

def hash (key : Bytes) : UInt64 :=
  let n := UInt64.ofNat key.length
  let state := multiplier * (mixLength key1 n + n)
  let state := mixBytes state key
  Word.rotateLeft (foldedProduct key0 state) (state % 64)

end TieredCache.KeyHash
