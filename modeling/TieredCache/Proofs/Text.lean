import Mathlib
import TieredCache.Text.Blank

/-!
# Trimmed texts and lines

Trimming takes blanks from the ends of a text and nothing else.  Up to blanks,
the lines of a text are what stands between its line feeds, so the lines of two
texts that a line feed joins are those of both.
-/

namespace TieredCache.Text

variable {text front back : List Char}

/-! ## Trimming -/

theorem trim_blank_append (h : ∀ c ∈ front, isBlank c) :
    trim (front ++ text) = trim text := by
  simp only [trim, List.dropWhile_append_of_pos h]

theorem trim_append_blank (h : ∀ c ∈ back, isBlank c) :
    trim (text ++ back) = trim text := by
  have hback : back.dropWhile isBlank = [] := List.dropWhile_eq_nil_iff.2 h
  have hreverse : ∀ c ∈ back.reverse, isBlank c := by simpa using h
  by_cases htext : text.dropWhile isBlank = []
  · simp [trim, List.dropWhile_append, htext, hback]
  · simp [trim, List.dropWhile_append, htext,
      List.dropWhile_append_of_pos hreverse]

theorem exists_trim (text : List Char) :
    ∃ front back, text = front ++ (trim text ++ back) ∧
      (∀ c ∈ front, isBlank c) ∧ ∀ c ∈ back, isBlank c := by
  let rest := text.dropWhile isBlank
  refine ⟨text.takeWhile isBlank, (rest.reverse.takeWhile isBlank).reverse,
    ?_, fun c => List.mem_takeWhile_imp, ?_⟩
  · have hrest : rest = trim text ++ (rest.reverse.takeWhile isBlank).reverse := by
      rw [trim, ← List.reverse_append, List.takeWhile_append_dropWhile,
        List.reverse_reverse]
    rw [← hrest, List.takeWhile_append_dropWhile]
  · intro c hc
    exact List.mem_takeWhile_imp (List.mem_reverse.1 hc)

theorem isBlank_head_trim {c : Char} {rest : List Char}
    (h : trim text = c :: rest) : isBlank c = false := by
  have hprefix : trim text <+: text.dropWhile isBlank :=
    List.rdropWhile_prefix isBlank _
  obtain ⟨back, hback⟩ := hprefix
  have hhead := List.head?_dropWhile_not isBlank text
  simpa [← hback, h] using hhead

theorem find?_eq_none_of_blank (h : ∀ c ∈ text, isBlank c) :
    text.find? (!isBlank ·) = none := by
  simpa using h

theorem head?_trim (text : List Char) :
    (trim text).head? = text.find? (!isBlank ·) := by
  obtain ⟨front, back, htext, hfront, hback⟩ := exists_trim text
  conv_rhs => rw [htext, List.find?_append, find?_eq_none_of_blank hfront]
  cases htrim : trim text with
  | nil => simp [find?_eq_none_of_blank hback]
  | cons c rest => simp [isBlank_head_trim htrim]

theorem mem_trim {c : Char} (hc : isBlank c = false) :
    c ∈ trim text ↔ c ∈ text := by
  obtain ⟨front, back, htext, hfront, hback⟩ := exists_trim text
  conv_rhs => rw [htext]
  have hnotFront : c ∉ front := fun h => by simp [hfront c h] at hc
  have hnotBack : c ∉ back := fun h => by simp [hback c h] at hc
  simp [hnotFront, hnotBack]

@[simp] theorem trim_trim (text : List Char) : trim (trim text) = trim text := by
  obtain ⟨front, back, htext, hfront, hback⟩ := exists_trim text
  conv_rhs => rw [htext, trim_blank_append hfront, trim_append_blank hback]

/-! ## Lines -/

def ended (line : List Char) : List Char :=
  match line with
  | '\r' :: before => before.reverse
  | _ => line.reverse

theorem trim_ended (line : List Char) : trim (ended line) = trim line.reverse := by
  unfold ended
  split
  · rename_i before
    have hreturn : isBlank '\r' := by decide
    rw [List.reverse_cons, trim_append_blank (by simpa using hreturn)]
  · rfl

theorem linesFrom_newline (done : List (List Char)) (line rest : List Char) :
    linesFrom done line ('\n' :: rest) = linesFrom (ended line :: done) [] rest :=
  rfl

theorem linesFrom_cons {c : Char} (h : c ≠ '\n') (done : List (List Char))
    (line rest : List Char) :
    linesFrom done line (c :: rest) = linesFrom done (c :: line) rest := by
  simp [linesFrom]

section Readers

variable {β : Type} {read : List Char → Option β}

/-- What is read of the lines of a text, each up to blanks, is read of what
stands between its line feeds. -/
theorem filterMap_linesFrom (htrim : ∀ line, read (trim line) = read line)
    (hnil : read [] = none) (done : List (List Char)) {line : List Char}
    (hline : '\n' ∉ line) (text : List Char) :
    (linesFrom done line text).filterMap read =
      (done.reverse ++ (line.reverse ++ text).splitOn '\n').filterMap read := by
  induction text generalizing done line with
  | nil =>
      have hsplit : line.reverse.splitOn '\n' = [line.reverse] :=
        List.splitOn_eq_singleton (by simpa using hline)
      rw [linesFrom, List.append_nil, hsplit]
      cases line with
      | nil => simp [hnil]
      | cons c line => simp
  | cons c text ih =>
      by_cases hc : c = '\n'
      · subst hc
        have hsplit : (line.reverse ++ '\n' :: text).splitOn '\n' =
            line.reverse :: text.splitOn '\n' :=
          List.splitOn_append_cons_self_of_not_mem (by simpa using hline) text
        have hended : read (ended line) = read line.reverse := by
          rw [← htrim, trim_ended, htrim]
        rw [linesFrom_newline, ih _ List.not_mem_nil, hsplit]
        simp [List.filterMap_cons, hended]
      · rw [linesFrom_cons hc, ih done (by simp [hline, Ne.symm hc])]
        simp

theorem filterMap_lines (htrim : ∀ line, read (trim line) = read line)
    (hnil : read [] = none) (text : List Char) :
    (lines text).filterMap read = (text.splitOn '\n').filterMap read := by
  simpa [lines] using filterMap_linesFrom htrim hnil [] List.not_mem_nil text

theorem filterMap_lines_intercalate
    (htrim : ∀ line, read (trim line) = read line) (hnil : read [] = none)
    (texts : List (List Char)) :
    (lines (['\n'].intercalate texts)).filterMap read =
      texts.flatMap fun text => (lines text).filterMap read := by
  simp only [filterMap_lines htrim hnil]
  induction texts with
  | nil => simp [hnil]
  | cons text rest ih =>
      by_cases hrest : rest = []
      · simp [hrest]
      · rw [List.intercalate_cons_of_ne_nil hrest, List.append_assoc,
          List.singleton_append, List.splitOn_append_cons_self,
          List.filterMap_append, ih, List.flatMap_cons]

theorem filterMap_lines_of_line (htrim : ∀ line, read (trim line) = read line)
    (hnil : read [] = none) {line : List Char} (h : '\n' ∉ line) :
    (lines line).filterMap read = (read line).toList := by
  rw [filterMap_lines htrim hnil, List.splitOn_eq_singleton h]
  cases hread : read line <;> simp [hread]

end Readers

end TieredCache.Text
