import TieredCache.Bytes
import TieredCache.Word

/-!
# Pseudorandom words

A benchmark draws numbers, fractions and letters.  All that it needs of the
draws is that they keep to their ranges.  The generator that it runs with has
four words of state, rotated, shifted, and xored at each step, whose output is
one rotated sum of two of them.  The words wrap at 64 bits.  Draws from a range
refuse the words that would favour some numbers, so a draw may take several
words.
-/

namespace TieredCache

/-- Random draws that keep to their ranges, whatever they are made from. -/
class Draws (γ : Type) where
  ofSeed : UInt64 → γ
  unit : γ → Float × γ
  below : Nat → γ → Nat × γ
  letters : Nat → γ → Bytes × γ
  below_lt {count : Nat} (hcount : 0 < count) (g : γ) :
    (below count g).1 < count
  length_letters (count : Nat) (g : γ) : (letters count g).1.length = count

structure Generator where
  s0 : UInt64
  s1 : UInt64
  s2 : UInt64
  s3 : UInt64
  deriving DecidableEq, Repr

namespace Generator

/-! ## Seeding -/

def spread (state : UInt64) : UInt64 :=
  11634580027462260723 + 6364136223846793005 * state

/-- The 32 bits shown for a state of the spreading sequence: its high bits
folded together, then rotated by its top five. -/
def fold (state : UInt64) : UInt64 :=
  let mixed := ((((state >>> 18) ^^^ state) >>> 27).toUInt32)
  let amount := (state >>> 59).toUInt32
  ((mixed >>> amount) ||| (mixed <<< ((32 - amount) % 32))).toUInt64

def spreadWord (state : UInt64) : UInt64 × UInt64 :=
  let low := spread state
  let high := spread low
  (fold low ||| (fold high <<< 32), high)

def ofSeed (seed : UInt64) : Generator :=
  let (s0, state) := spreadWord seed
  let (s1, state) := spreadWord state
  let (s2, state) := spreadWord state
  let (s3, _) := spreadWord state
  ⟨s0, s1, s2, s3⟩

/-! ## Stepping -/

def output (g : Generator) : UInt64 := Word.rotateLeft (g.s0 + g.s3) 23 + g.s0

def advance (g : Generator) : Generator :=
  let s2 := g.s2 ^^^ g.s0
  let s3 := g.s3 ^^^ g.s1
  { s0 := g.s0 ^^^ s3
    s1 := g.s1 ^^^ s2
    s2 := s2 ^^^ (g.s1 <<< 17)
    s3 := Word.rotateLeft s3 45 }

def next (g : Generator) : UInt64 × Generator := (g.output, g.advance)

/-! ## Draws -/

/-- A double in `[0, 1)`: the upper 53 bits of a word as a binary fraction. -/
def unit (g : Generator) : Float × Generator :=
  let (word, g) := g.next
  ((word >>> 11).toFloat * Float.ofBits 0x3CA0000000000000, g)

/-- How many words one draw may refuse.  Fewer than half of all words are
refused, whatever the range. -/
def maxRefusals : Nat := 1024

/-- Draws below `count` by the high half of a product, which is fair once the
low half is at most `zone`. -/
def belowWithin (count zone : Nat) : Nat → Generator → Nat × Generator
  | 0, g => (0, g)
  | attempts + 1, g =>
      let (word, g) := g.next
      let product := word.toNat * count
      if product % UInt64.size ≤ zone then (product / UInt64.size, g)
      else belowWithin count zone attempts g

/-- A number below `count`, where `count` is positive and fits a word.  The zone is
the largest multiple of `count` by a power of two that a word holds. -/
def below (count : Nat) (g : Generator) : Nat × Generator :=
  belowWithin count ((count <<< (63 - Nat.log2 count)) - 1) maxRefusals g

theorem belowWithin_lt {count : Nat} (hcount : 0 < count)
    (zone attempts : Nat) (g : Generator) :
    (belowWithin count zone attempts g).1 < count := by
  induction attempts generalizing g with
  | zero => exact hcount
  | succ attempts ih =>
      simp only [belowWithin]
      split
      · rw [Nat.div_lt_iff_lt_mul (by decide), Nat.mul_comm]
        exact Nat.mul_lt_mul_of_pos_left g.next.1.toNat_lt hcount
      · exact ih _

theorem below_lt {count : Nat} (hcount : 0 < count) (g : Generator) :
    (below count g).1 < count :=
  belowWithin_lt hcount _ _ g

/-! ## Letters and digits -/

def alphanumeric (index : Nat) : UInt8 :=
  if index < 26 then UInt8.ofNat (65 + index)
  else if index < 52 then UInt8.ofNat (97 + (index - 26))
  else UInt8.ofNat (48 + (index - 52))

def letterWithin : Nat → Generator → UInt8 × Generator
  | 0, g => (alphanumeric 0, g)
  | attempts + 1, g =>
      let (word, g) := g.next
      let index := (word >>> 58).toNat
      if index < 62 then (alphanumeric index, g) else letterWithin attempts g

def letter (g : Generator) : UInt8 × Generator := letterWithin maxRefusals g

def lettersOnto (drawn : Bytes) : Nat → Generator → Bytes × Generator
  | 0, g => (drawn.reverse, g)
  | count + 1, g =>
      let (byte, g) := g.letter
      lettersOnto (byte :: drawn) count g

def letters (count : Nat) (g : Generator) : Bytes × Generator :=
  lettersOnto [] count g

theorem length_lettersOnto (drawn : Bytes) (count : Nat) (g : Generator) :
    (lettersOnto drawn count g).1.length = drawn.length + count := by
  induction count generalizing drawn g with
  | zero => simp [lettersOnto]
  | succ count ih =>
      simp only [lettersOnto, ih, List.length_cons]
      omega

@[simp] theorem length_letters (count : Nat) (g : Generator) :
    (letters count g).1.length = count := by
  simp [letters, length_lettersOnto]

end Generator

instance : Draws Generator where
  ofSeed := Generator.ofSeed
  unit := Generator.unit
  below := Generator.below
  letters := Generator.letters
  below_lt := Generator.below_lt
  length_letters := Generator.length_letters

end TieredCache
