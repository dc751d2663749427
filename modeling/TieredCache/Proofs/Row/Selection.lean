import Mathlib
import TieredCache.Proofs.Row.Walk

/-!
# What a selection answers

The parked fields and those that the walk has yet to meet form one pool.  Each
request takes the first field of its name from the pool, whichever part it is
in; the walk is only how far the pool has been read.
-/

namespace TieredCache.Row

def named (name : Bytes) (record : Record) : Record :=
  record.filter fun field => field.name = name

def Enough (pool : Record) (names : List Bytes) : Prop :=
  ∀ name, names.count name ≤ (named name pool).length

/-- Takes for each request the first field of its name, if there is one left. -/
def picked : Record → List Bytes → Record
  | _, [] => []
  | pool, name :: names =>
      match pool.find? (·.name = name) with
      | some field => field :: picked (pool.eraseP (·.name = name)) names
      | none => picked pool names

variable {pool : Record} {name : Bytes} {names : List Bytes} {field : Field}

/-! ## Taking the first field of a name -/

theorem split_of_find? (h : pool.find? (·.name = name) = some field) :
    ∃ front back, pool = front ++ field :: back ∧ field.name = name ∧
      (∀ other ∈ front, other.name ≠ name) ∧
      pool.eraseP (·.name = name) = front ++ back := by
  obtain ⟨hname, front, back, rfl, hfront⟩ := List.find?_eq_some_iff_append.1 h
  have hname' : field.name = name := by simpa using hname
  have hfront' : ∀ other ∈ front, other.name ≠ name := by
    intro other hother
    simpa using hfront other hother
  refine ⟨front, back, rfl, hname', hfront', ?_⟩
  rw [List.eraseP_append_right, List.eraseP_cons_of_pos (by simpa using hname')]
  intro other hother
  simpa using hfront' other hother

theorem absent_of_find? (h : pool.find? (·.name = name) = none) :
    ∀ other ∈ pool, other.name ≠ name := by
  intro other hother
  simpa using List.find?_eq_none.1 h other hother

theorem named_of_find? (h : pool.find? (·.name = name) = some field) :
    named name pool =
      field :: named name (pool.eraseP (·.name = name)) := by
  obtain ⟨front, back, rfl, hname, hfront, herase⟩ := split_of_find? h
  rw [herase]
  unfold named
  have hnone : front.filter (fun other => decide (other.name = name)) = [] := by
    rw [List.filter_eq_nil_iff]
    intro other hother
    simpa using hfront other hother
  simp [hname, hnone]

theorem named_eraseP_of_ne {other : Bytes} (hne : other ≠ name) :
    named other (pool.eraseP (·.name = name)) = named other pool := by
  cases h : pool.find? (·.name = name) with
  | none =>
      rw [List.eraseP_of_forall_not]
      intro field hfield
      simpa using absent_of_find? h field hfield
  | some field =>
      obtain ⟨front, back, rfl, hname, -, herase⟩ := split_of_find? h
      rw [herase]
      simp [named, hname, Ne.symm hne]

theorem named_of_absent (h : pool.find? (·.name = name) = none) :
    named name pool = [] := by
  unfold named
  rw [List.filter_eq_nil_iff]
  intro other hother
  simpa using absent_of_find? h other hother

/-! ## Enough fields -/

theorem enough_cons_iff (h : pool.find? (·.name = name) = some field) :
    Enough pool (name :: names) ↔
      Enough (pool.eraseP (·.name = name)) names := by
  unfold Enough
  apply forall_congr'
  intro other
  by_cases heq : other = name
  · subst heq
    rw [named_of_find? h, List.count_cons_self, List.length_cons]
    omega
  · rw [named_eraseP_of_ne heq, List.count_cons_of_ne (Ne.symm heq)]

theorem not_enough_of_absent (h : pool.find? (·.name = name) = none) :
    ¬Enough pool (name :: names) := by
  intro henough
  have hname := henough name
  rw [named_of_absent h, List.count_cons_self] at hname
  simp at hname

/-- With enough fields, the request at each place is answered by the field of
its name that comes after those for earlier requests of that name. -/
theorem picked_of_enough (h : Enough pool names) :
    (picked pool names).length = names.length ∧
      ∀ (i : Nat) (hi : i < names.length),
        (picked pool names)[i]? =
          (named names[i] pool)[(names.take i).count names[i]]? := by
  induction names generalizing pool with
  | nil => simp [picked]
  | cons name names ih =>
      cases hfind : pool.find? (·.name = name) with
      | none => exact absurd h (not_enough_of_absent hfind)
      | some field =>
          obtain ⟨hlength, hanswers⟩ := ih ((enough_cons_iff hfind).1 h)
          simp only [picked, hfind]
          refine ⟨by rw [List.length_cons, hlength, List.length_cons], ?_⟩
          intro i hi
          cases i with
          | zero => simp [named_of_find? hfind]
          | succ i =>
              have hi' : i < names.length := by simpa using hi
              rw [List.getElem?_cons_succ, hanswers i hi']
              simp only [List.getElem_cons_succ, List.take_succ_cons]
              by_cases heq : names[i] = name
              · rw [heq, named_of_find? hfind, List.count_cons_self,
                  List.getElem?_cons_succ]
              · rw [named_eraseP_of_ne heq, List.count_cons_of_ne (Ne.symm heq)]

theorem length_picked (asked : Finset Bytes)
    (h : ∀ name ∈ names, name ∈ asked) :
    (picked pool names).length =
      ∑ name ∈ asked, min (names.count name) (named name pool).length := by
  induction names generalizing pool with
  | nil => simp [picked]
  | cons name names ih =>
      have hname : name ∈ asked := h name List.mem_cons_self
      have hnames : ∀ other ∈ names, other ∈ asked := fun other hother =>
        h other (List.mem_cons_of_mem _ hother)
      -- All other names are asked for and there as often as before.
      have hothers : ∀ pool' : Record,
          (∀ other ∈ asked.erase name, named other pool' = named other pool) →
          ∑ other ∈ asked.erase name,
              min (names.count other) (named other pool').length =
            ∑ other ∈ asked.erase name,
              min ((name :: names).count other) (named other pool).length := by
        intro pool' hsame
        apply Finset.sum_congr rfl
        intro other hother
        have hne := Finset.ne_of_mem_erase hother
        rw [hsame other hother, List.count_cons_of_ne (Ne.symm hne)]
      cases hfind : pool.find? (·.name = name) with
      | none =>
          simp only [picked, hfind]
          rw [ih hnames, ← Finset.add_sum_erase _ _ hname,
            ← Finset.add_sum_erase _ _ hname, named_of_absent hfind,
            hothers pool fun other hother => rfl]
          simp
      | some field =>
          simp only [picked, hfind]
          rw [List.length_cons, ih hnames, ← Finset.add_sum_erase _ _ hname,
            ← Finset.add_sum_erase _ _ hname, named_of_find? hfind,
            hothers _ fun other hother =>
              named_eraseP_of_ne (Finset.ne_of_mem_erase hother)]
          rw [List.count_cons_self, List.length_cons]
          omega

theorem length_picked_lt (h : ¬Enough pool names) :
    (picked pool names).length < names.length := by
  unfold Enough at h
  push Not at h
  obtain ⟨name, hmissing⟩ := h
  have hname : name ∈ names.toFinset := by
    rw [List.mem_toFinset, ← List.count_pos_iff]
    omega
  rw [length_picked names.toFinset fun other hother =>
    List.mem_toFinset.2 hother]
  calc ∑ name ∈ names.toFinset,
        min (names.count name) (named name pool).length
      < ∑ name ∈ names.toFinset, names.count name := by
        apply Finset.sum_lt_sum
        · intro other hother
          exact min_le_left _ _
        · exact ⟨name, hname, (min_le_right _ _).trans_lt hmissing⟩
    _ = names.length := by
        convert List.sum_toFinset_count_eq_length names

/-! ## The walk and the pool -/

theorem unpark?_eq (name : Bytes) (parked : Record) :
    unpark? name parked =
      (parked.find? (·.name = name)).map fun field =>
        (field, parked.eraseP (·.name = name)) := by
  unfold unpark?
  cases hfind : parked.find? (·.name = name) with
  | none =>
      have hnone : parked.dropWhile (·.name != name) = [] := by
        rw [List.dropWhile_eq_nil_iff]
        intro other hother
        simpa using absent_of_find? hfind other hother
      rw [hnone]
      rfl
  | some field =>
      obtain ⟨front, back, rfl, hname, hfront, herase⟩ := split_of_find? hfind
      have hpassed : ∀ other ∈ front, (other.name != name) = true := by
        intro other hother
        simpa using hfront other hother
      rw [List.dropWhile_append_of_pos hpassed,
        List.takeWhile_append_of_pos hpassed, herase]
      simp [hname]

/-- With enough fields in the pool every request is answered; otherwise the
walk goes on to the end of the row, and damage there is reported. -/
theorem answer_of_meets (parked answers : Record) {upcoming : Record}
    {cursor : Cursor} {ending : Option RowError}
    (h : Meets cursor upcoming ending) :
    (Enough (parked ++ upcoming) names →
      answer parked cursor answers names =
        .ok (answers.reverse ++ picked (parked ++ upcoming) names)) ∧
    (¬Enough (parked ++ upcoming) names →
      answer parked cursor answers names =
        outcome (answers.reverse ++ picked (parked ++ upcoming) names)
          ending) := by
  induction names generalizing parked answers upcoming cursor with
  | nil => simp [answer, picked, Enough]
  | cons name names ih =>
      cases hparked : parked.find? (·.name = name) with
      | some field =>
          have hfind : (parked ++ upcoming).find? (·.name = name) =
              some field := by
            rw [List.find?_append, hparked]
            rfl
          have herase : (parked ++ upcoming).eraseP (·.name = name) =
              parked.eraseP (·.name = name) ++ upcoming := by
            obtain ⟨front, back, rfl, hname, -⟩ := split_of_find? hparked
            have hmem : field ∈ front ++ field :: back := by simp
            exact List.eraseP_append_left (by simpa using hname) _ hmem
          have hnext := ih (parked.eraseP (·.name = name)) (field :: answers) h
          simp only [answer, unpark?_eq, hparked, Option.map_some, picked,
            hfind]
          rw [enough_cons_iff hfind, herase]
          simpa using hnext
      | none =>
          have hfind : (parked ++ upcoming).find? (·.name = name) =
              upcoming.find? (·.name = name) := by
            rw [List.find?_append, hparked]
            rfl
          simp only [answer, unpark?_eq, hparked, Option.map_none, picked,
            hfind]
          cases hupcoming : upcoming.find? (·.name = name) with
          | some field =>
              rw [hupcoming] at hfind
              obtain ⟨front, back, rfl, hname, hfront, herase⟩ :=
                split_of_find? hupcoming
              obtain ⟨after, hwalk, hmeets⟩ := h.walkTo_found hfront hname []
              have hpool : (parked ++ (front ++ field :: back)).eraseP
                  (·.name = name) = parked ++ front ++ back := by
                rw [List.eraseP_append_right, herase, List.append_assoc]
                intro other hother
                simpa using absent_of_find? hparked other hother
              have hnext := ih (parked ++ front) (field :: answers) hmeets
              rw [enough_cons_iff hfind, hpool, hwalk]
              simpa using hnext
          | none =>
              rw [hupcoming] at hfind
              have habsent := absent_of_find? hupcoming
              have hmissing : ¬Enough (parked ++ upcoming) (name :: names) :=
                not_enough_of_absent hfind
              refine ⟨fun henough => absurd henough hmissing, fun _ => ?_⟩
              cases ending with
              | some e =>
                  rw [h.walkTo_damage habsent []]
                  rfl
              | none =>
                  obtain ⟨after, hwalk, hmeets⟩ := h.walkTo_passed habsent []
                  obtain ⟨henough, hothers⟩ :=
                    ih (parked ++ upcoming) answers hmeets
                  rw [hwalk]
                  simp only [List.reverse_nil, List.nil_append, park_eq_append]
                  rw [List.append_nil] at henough hothers
                  by_cases hrest : Enough (parked ++ upcoming) names
                  · exact henough hrest
                  · exact hothers hrest

/-! ## Selections -/

section Selections

variable {bytes : Bytes} {stored : Record}

theorem decodeSelected_of_enough {ending : Option RowError}
    (h : Meets (Cursor.start bytes) stored ending)
    (henough : Enough stored names) :
    decodeSelected bytes names = .ok (picked stored names) := by
  have hanswer := (answer_of_meets [] [] h).1 henough
  simp only [List.nil_append, List.reverse_nil] at hanswer
  unfold decodeSelected
  rw [hanswer]
  simp only [if_pos (picked_of_enough henough).1]

theorem decodeSelected_of_lacking
    (h : Meets (Cursor.start bytes) stored none)
    (hlacking : ¬Enough stored names) :
    decodeSelected bytes names =
      .error (.incomplete names.length (picked stored names).length) := by
  have hanswer := (answer_of_meets [] [] h).2 hlacking
  simp only [outcome, List.nil_append, List.reverse_nil] at hanswer
  have hfewer := length_picked_lt hlacking
  unfold decodeSelected
  rw [hanswer]
  simp only [if_neg hfewer.ne]

theorem decodeSelected_ne_malformed
    (h : Meets (Cursor.start bytes) stored none) (names : List Bytes)
    (offset : Nat) (damage : Damage) :
    decodeSelected bytes names ≠ .error (.malformed offset damage) := by
  by_cases henough : Enough stored names
  · rw [decodeSelected_of_enough h henough]
    simp
  · rw [decodeSelected_of_lacking h henough]
    simp

end Selections

end TieredCache.Row
