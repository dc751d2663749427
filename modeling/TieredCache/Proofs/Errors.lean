import Mathlib

/-!
# Computations that can fail

A computation of several steps gives a result if every step gives one, and fails
with the error of the first step that does.
-/

namespace TieredCache

section Results

variable {ε α β : Type} {first : Except ε α} {next : α → Except ε β}
  {value : α} {result : β} {e : ε}

theorem exists_of_bind (h : (first >>= next) = .ok result) :
    ∃ value, first = .ok value ∧ next value = .ok result := by
  cases first with
  | error e => cases h
  | ok value => exact ⟨value, rfl, h⟩

theorem bind_of_ok (hfirst : first = .ok value)
    (hnext : next value = .ok result) : (first >>= next) = .ok result := by
  rw [hfirst]
  exact hnext

theorem bind_eq_ok_iff :
    (first >>= next) = .ok result ↔
      ∃ value, first = .ok value ∧ next value = .ok result := by
  constructor
  · exact exists_of_bind
  · rintro ⟨value, hfirst, hnext⟩
    exact bind_of_ok hfirst hnext

theorem pure_eq_ok_iff {other : α} :
    (pure value : Except ε α) = .ok other ↔ other = value := by
  constructor
  · rintro ⟨⟩
    rfl
  · rintro rfl
    rfl

theorem guard_eq_ok_iff {stop : Prop} [Decidable stop] {rest : Except ε β} :
    (if stop then throw e >>= next else rest) = .ok result ↔
      ¬stop ∧ rest = .ok result := by
  have hstop : throw e >>= next = .error e := rfl
  by_cases h : stop <;> simp [h, hstop]

theorem exists_error_iff :
    (∃ e, first = .error e) ↔ ¬∃ value, first = .ok value := by
  cases first <;> simp

end Results

/-! ## The first error -/

section FirstError

variable {ε α β : Type} {first : Except ε α} {next : α → Except ε β} {e : ε}

def error? : Except ε α → Option ε
  | .error e => some e
  | .ok _ => none

theorem error?_eq_some_iff : error? first = some e ↔ first = .error e := by
  cases first <;> simp [error?]

theorem error?_eq_none_iff :
    error? first = none ↔ ∃ value, first = .ok value := by
  cases first <;> simp [error?]

/-- Steps whose errors do not depend on earlier values fail in their order. -/
theorem error?_bind {later : Option ε}
    (h : ∀ value, error? (next value) = later) :
    error? (first >>= next) = (error? first).or later := by
  cases first with
  | error e => rfl
  | ok value => exact h value

variable {ι : Type*} {f g : ι → Option α}

theorem findSome?_cons_eq_or (i : ι) (rest : List ι) :
    (i :: rest).findSome? f = (f i).or (rest.findSome? f) := by
  rw [List.findSome?_cons]
  cases f i <;> rfl

theorem findSome?_congr {list : List ι} (h : ∀ i ∈ list, f i = g i) :
    list.findSome? f = list.findSome? g := by
  induction list with
  | nil => rfl
  | cons i rest ih =>
      rw [List.forall_mem_cons] at h
      rw [findSome?_cons_eq_or, findSome?_cons_eq_or, h.1, ih h.2]

end FirstError

end TieredCache
