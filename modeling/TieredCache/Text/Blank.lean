/-!
# Blank characters, lines, and cuts

Texts are handled as lists of characters.  Blank characters are those with the
Unicode property `White_Space`, and trimming removes them from both ends.
-/

namespace TieredCache.Text

/-- The code points with the property `White_Space`, as inclusive ranges. -/
def blankRanges : List (Nat × Nat) :=
  [(0x09, 0x0D), (0x20, 0x20), (0x85, 0x85), (0xA0, 0xA0), (0x1680, 0x1680),
   (0x2000, 0x200A), (0x2028, 0x2029), (0x202F, 0x202F), (0x205F, 0x205F),
   (0x3000, 0x3000)]

def isBlank (c : Char) : Bool :=
  blankRanges.any fun (first, last) => first ≤ c.toNat && c.toNat ≤ last

def trim (text : List Char) : List Char :=
  ((text.dropWhile isBlank).reverse.dropWhile isBlank).reverse

/-- Lines of a text after those in `done`, with these and the current line held
in reverse.  A line feed ends a line and takes one carriage return before it
along; a text that ends with a line feed has no empty line after it. -/
def linesFrom (done : List (List Char)) (line : List Char) :
    List Char → List (List Char)
  | [] => (if line.isEmpty then done else line.reverse :: done).reverse
  | '\n' :: rest =>
      let ended :=
        match line with
        | '\r' :: before => before.reverse
        | _ => line.reverse
      linesFrom (ended :: done) [] rest
  | c :: rest => linesFrom done (c :: line) rest

def lines (text : List Char) : List (List Char) := linesFrom [] [] text

def cut? (separator : Char) (text : List Char) :
    Option (List Char × List Char) :=
  match text.dropWhile (· != separator) with
  | [] => none
  | _ :: after => some (text.takeWhile (· != separator), after)

theorem cut?_cons (separator c : Char) (rest : List Char) :
    cut? separator (c :: rest) =
      if c = separator then some ([], rest)
      else (cut? separator rest).map fun (before, after) =>
        (c :: before, after) := by
  by_cases hc : c = separator
  · simp [cut?, hc]
  · simp only [cut?, List.dropWhile_cons, List.takeWhile_cons, hc, bne_iff_ne,
      ne_eq, not_false_eq_true, if_true, if_false]
    cases rest.dropWhile (· != separator) <;> rfl

theorem cut?_eq_some_iff {separator : Char} {text before after : List Char} :
    cut? separator text = some (before, after) ↔
      text = before ++ separator :: after ∧ separator ∉ before := by
  induction text generalizing before with
  | nil => simp [cut?]
  | cons c rest ih =>
      by_cases hc : c = separator
      · subst hc
        cases before with
        | nil => simp [cut?_cons, eq_comm]
        | cons d before =>
            simp only [cut?_cons, if_true, Option.some.injEq, Prod.mk.injEq,
              List.cons_append, List.cons.injEq, List.mem_cons]
            constructor
            · rintro ⟨h, _⟩; cases h
            · rintro ⟨⟨h, _⟩, hnot⟩; exact absurd (Or.inl h) hnot
      · cases before with
        | nil => simp [cut?_cons, hc]
        | cons d before =>
            simp only [cut?_cons, hc, if_false, Option.map_eq_some_iff, Prod.exists,
              Prod.mk.injEq, List.cons.injEq, List.cons_append, List.mem_cons]
            constructor
            · rintro ⟨b, a, h, ⟨rfl, rfl⟩, rfl⟩
              obtain ⟨hrest, hnot⟩ := ih.1 h
              exact ⟨⟨rfl, hrest⟩, by
                rintro (h | h)
                · exact hc h.symm
                · exact hnot h⟩
            · rintro ⟨⟨rfl, hrest⟩, hnot⟩
              exact ⟨before, after, ih.2 ⟨hrest, fun h => hnot (Or.inr h)⟩,
                ⟨rfl, rfl⟩, rfl⟩

theorem cut?_eq_none_iff {separator : Char} {text : List Char} :
    cut? separator text = none ↔ separator ∉ text := by
  induction text with
  | nil => simp [cut?]
  | cons c rest ih =>
      by_cases hc : c = separator
      · simp [cut?_cons, hc]
      · simp [cut?_cons, hc, ih, Ne.symm hc]

end TieredCache.Text
