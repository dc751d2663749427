import Mathlib
import TieredCache.Proofs.Store.Windows

/-!
# The lookups of a scan

Lookups that write down which keys they were asked for, and what they answered,
are lookups like any other.  A scan that uses them shows what it looks up, in
which order, and where it stops.
-/

namespace TieredCache

structure Query (ρ : Type) where
  key : Bytes
  answer : Except StoreError (Option ρ)
  deriving Repr

namespace Query

variable {ρ : Type}

def row? (query : Query ρ) : Option ρ :=
  match query.answer with
  | .ok row => row
  | .error _ => none

def rows (trace : List (Query ρ)) : List ρ := trace.filterMap row?

@[simp] theorem rows_nil : rows ([] : List (Query ρ)) = [] := rfl

@[simp] theorem rows_error (key : Bytes) (e : StoreError)
    (trace : List (Query ρ)) : rows (⟨key, .error e⟩ :: trace) = rows trace :=
  rfl

@[simp] theorem rows_none (key : Bytes) (trace : List (Query ρ)) :
    rows (⟨key, .ok none⟩ :: trace) = rows trace := rfl

@[simp] theorem rows_some (key : Bytes) (row : ρ) (trace : List (Query ρ)) :
    rows (⟨key, .ok (some row)⟩ :: trace) = row :: rows trace := rfl

def Answered (trace : List (Query ρ)) : Prop :=
  ∀ query ∈ trace, ∃ row, query.answer = .ok row

@[simp] theorem answered_nil : Answered ([] : List (Query ρ)) := by
  simp [Answered]

@[simp] theorem answered_ok (key : Bytes) (row : Option ρ)
    (trace : List (Query ρ)) :
    Answered (⟨key, .ok row⟩ :: trace) ↔ Answered trace := by
  simp [Answered]

end Query

namespace Scanner

variable {σ ρ : Type}

/-- The same lookup, with a trace of all lookups so far beside the state. -/
def traced (lookup : σ → Bytes → Except StoreError (Option ρ) × σ)
    (state : σ × List (Query ρ)) (key : Bytes) :
    Except StoreError (Option ρ) × (σ × List (Query ρ)) :=
  let (answer, next) := lookup state.1 key
  (answer, (next, state.2 ++ [⟨key, answer⟩]))

theorem agree_traced
    (lookup : σ → Bytes → Except StoreError (Option ρ) × σ) :
    Agree (traced lookup) lookup fun state state' => state.1 = state' := by
  rintro state _ key rfl
  exact ⟨rfl, rfl⟩

theorem trace_traced
    {lookup : σ → Bytes → Except StoreError (Option ρ) × σ} {key : Bytes}
    {state next : σ × List (Query ρ)} {answer : Except StoreError (Option ρ)}
    (h : traced lookup state key = (answer, next)) :
    next.2 = state.2 ++ [⟨key, answer⟩] := by
  cases h
  rfl

/-- What a scan may look up from a number on, with so many lookups left and so
many rows still wanted, and the failure that it ends with. -/
inductive Scanned (scanner : Scanner) :
    Nat → Nat → Nat → List (Query ρ) → Option StoreError → Prop where
  | spent {wanted id} : Scanned scanner 0 wanted id [] none
  | filled {lookups id} : Scanned scanner lookups 0 id [] none
  | ended {lookups wanted id} (hid : scanner.keyAt? id = none) :
      Scanned scanner lookups wanted id [] none
  | failed {lookups wanted id key} {e : StoreError}
      (hid : scanner.keyAt? id = some key) :
      Scanned scanner (lookups + 1) (wanted + 1) id [⟨key, .error e⟩] (some e)
  | missed {lookups wanted id key trace failure?}
      (hid : scanner.keyAt? id = some key)
      (hrest : Scanned scanner lookups (wanted + 1) (id + 1) trace failure?) :
      Scanned scanner (lookups + 1) (wanted + 1) id
        (⟨key, .ok none⟩ :: trace) failure?
  | found {lookups wanted id key trace failure?} {row : ρ}
      (hid : scanner.keyAt? id = some key)
      (hrest : Scanned scanner lookups wanted (id + 1) trace failure?) :
      Scanned scanner (lookups + 1) (wanted + 1) id
        (⟨key, .ok (some row)⟩ :: trace) failure?

/-- A scan is over with its failure, or with the rows that it found before and
those of its trace. -/
def outcome (rows : List ρ) (trace : List (Query ρ)) :
    Option StoreError → Except StoreError (List ρ)
  | some e => .error e
  | none => .ok (rows.reverse ++ Query.rows trace)

theorem collect_traced (scanner : Scanner)
    (lookup : σ → Bytes → Except StoreError (Option ρ) × σ) (rows : List ρ)
    (lookups wanted id : Nat) (state : σ × List (Query ρ)) :
    ∃ trace failure?, Scanned scanner lookups wanted id trace failure? ∧
      (scanner.collect (traced lookup) rows lookups wanted id state).1 =
        outcome rows trace failure? ∧
      (scanner.collect (traced lookup) rows lookups wanted id state).2.2 =
        state.2 ++ trace := by
  fun_induction collect (traced lookup) scanner rows lookups wanted id state
    with
  | case1 => exact ⟨[], none, .spent, by simp [outcome]⟩
  | case2 => exact ⟨[], none, .filled, by simp [outcome]⟩
  | case3 rows lookups wanted id state hid =>
      exact ⟨[], none, .ended hid, by simp [outcome]⟩
  | case4 rows lookups wanted id state key hid e next hlookup =>
      refine ⟨[⟨key, .error e⟩], some e, .failed hid, rfl, ?_⟩
      exact trace_traced hlookup
  | case5 rows lookups wanted id state key hid next hlookup ih =>
      -- The rest of the scan adds to a trace that has this lookup already.
      obtain ⟨trace, failure?, hscanned, hresult, htrace⟩ := ih
      refine ⟨⟨key, .ok none⟩ :: trace, failure?, .missed hid hscanned, ?_, ?_⟩
      · rw [hresult]
        rfl
      · rw [htrace, trace_traced hlookup, List.append_assoc,
          List.singleton_append]
  | case6 rows lookups wanted id state key hid row next hlookup ih =>
      obtain ⟨trace, failure?, hscanned, hresult, htrace⟩ := ih
      refine ⟨⟨key, .ok (some row)⟩ :: trace, failure?, .found hid hscanned,
        ?_, ?_⟩
      · rw [hresult]
        cases failure? <;> simp [outcome]
      · rw [htrace, trace_traced hlookup, List.append_assoc,
          List.singleton_append]

namespace Scanned

variable {scanner : Scanner} {lookups wanted id : Nat}
  {trace : List (Query ρ)} {failure? : Option StoreError}

section Bounds

variable (h : Scanned scanner lookups wanted id trace failure?)

include h

theorem keys : trace.map (fun query => some query.key) =
    (List.range' id trace.length).map scanner.keyAt? := by
  induction h with
  | spent | filled | ended => rfl
  | failed hid => simp [hid]
  | missed hid _ ih | found hid _ ih => simp [hid, ih, List.range'_succ]

theorem lt_idBound {i : Nat} (hi : i ∈ List.range' id trace.length) :
    i < scanner.idBound := by
  have hkey : scanner.keyAt? i ∈ trace.map fun query => some query.key := by
    rw [h.keys]
    exact List.mem_map_of_mem hi
  obtain ⟨query, -, hquery⟩ := List.mem_map.1 hkey
  exact (keyAt?_eq_some_iff.1 hquery.symm).1

theorem length_le : trace.length ≤ lookups := by
  induction h with
  | spent | filled | ended | failed => simp
  | missed _ _ ih | found _ _ ih => simpa using ih

theorem length_rows_le : (Query.rows trace).length ≤ wanted := by
  induction h with
  | spent | filled | ended | failed => simp
  | missed _ _ ih | found _ _ ih => simpa using ih

theorem before {i : Nat} (hi : i < trace.length) :
    (Query.rows (trace.take i)).length < wanted ∧
      Query.Answered (trace.take i) := by
  induction h generalizing i with
  | spent | filled | ended => simp at hi
  | failed hid =>
      obtain rfl : i = 0 := by simpa using hi
      simp
  | missed _ _ ih | found _ _ ih =>
      cases i with
      | zero => simp
      | succ i => simpa using ih (by simpa using hi)

end Bounds

theorem of_failure {e : StoreError}
    (h : Scanned scanner lookups wanted id trace (some e)) :
    ∃ before key, trace = before ++ [⟨key, .error e⟩] := by
  generalize hfailure : some e = failure? at h
  induction h with
  | spent | filled | ended => cases hfailure
  | failed =>
      cases hfailure
      exact ⟨[], _, rfl⟩
  | missed _ _ ih | found _ _ ih =>
      obtain ⟨before, key, rfl⟩ := ih hfailure
      exact ⟨_ :: before, key, rfl⟩

/-- A scan that does not fail stops with all rows, after all lookups, or where
the numbers with keys end. -/
theorem of_success
    (h : Scanned scanner lookups wanted id trace none) :
    Query.Answered trace ∧
      ((Query.rows trace).length = wanted ∨ trace.length = lookups ∨
        scanner.idBound ≤ id + trace.length) := by
  generalize hfailure : none = failure? at h
  induction h with
  | spent | filled => simp
  | ended hid =>
      rw [keyAt?_eq, ite_eq_right_iff] at hid
      simpa using Or.inr (Or.inr hid)
  | failed => cases hfailure
  | missed _ _ ih | found _ _ ih =>
      obtain ⟨hanswered, hstop⟩ := ih hfailure
      simp only [Query.answered_ok, Query.rows_none, Query.rows_some,
        List.length_cons]
      exact ⟨hanswered, by omega⟩

theorem of_halt {halt : Halt}
    (h : Scanned scanner lookups wanted id trace failure?)
    (hhalt : (outcome [] trace failure?).mapError .reported = .error halt) :
    ∃ before key e, halt = .reported e ∧
      trace = before ++ [⟨key, .error e⟩] := by
  cases failure? with
  | none => cases hhalt
  | some cause =>
      cases hhalt
      obtain ⟨before, key, htrace⟩ := h.of_failure
      exact ⟨before, key, cause, rfl, htrace⟩

theorem of_rows {rows : List ρ}
    (h : Scanned scanner lookups wanted id trace failure?)
    (hrows : (outcome [] trace failure?).mapError Halt.reported = .ok rows) :
    Query.Answered trace ∧ rows = Query.rows trace ∧
      rows.length ≤ min wanted lookups ∧
      (rows.length < wanted → trace.length = lookups ∨
        ∀ other, id ≤ other → other < 10 ^ scanner.space.width →
          other < 2 ^ 64 → other ∈ List.range' id trace.length) := by
  cases failure? with
  | some cause => cases hrows
  | none =>
      cases hrows
      obtain ⟨hanswered, hstop⟩ := h.of_success
      have hfound : (Query.rows trace).length ≤ trace.length :=
        List.length_filterMap_le _ _
      refine ⟨hanswered, rfl,
        le_min h.length_rows_le (hfound.trans h.length_le), ?_⟩
      intro hshort
      rcases hstop with henough | hspent | hend
      · exact absurd henough hshort.ne
      · exact .inl hspent
      · refine .inr fun other hle hdigits hlimit => ?_
        have hbound : other < scanner.idBound := lt_min hdigits hlimit
        exact List.mem_range'_1.2 ⟨hle, hbound.trans_le hend⟩

end Scanned

theorem traced_of_memory {scanner : Scanner} {rowSize count first : Nat}
    {start : Bytes} (hstart : scanner.idOf start = .ok first)
    (hmemory : scanner.hasMemory rowSize count = true)
    (lookup : σ → Bytes → Except StoreError (Option ρ) × σ) (state : σ) :
    let recorded :=
      scanner.scan (traced lookup) rowSize start count (state, [])
    ∃ trace failure?,
      Scanned scanner scanner.lookupLimit count first trace failure? ∧
      recorded.1 = (outcome [] trace failure?).mapError .reported ∧
      recorded.2.2 = trace := by
  intro recorded
  obtain ⟨trace, failure?, h, houtcome, hmade⟩ :=
    collect_traced scanner lookup [] scanner.lookupLimit count first (state, [])
  refine ⟨trace, failure?, h, ?_, ?_⟩
  · simp only [recorded, scan_of_memory hstart hmemory, houtcome]
  · simpa only [recorded, scan_of_memory hstart hmemory, List.nil_append] using
      hmade

/-- Whatever lookups answer, and however the answers depend on the lookups
before them, a scan from a key with a number looks up the keys of consecutive
numbers from there on.  It makes a lookup only while there are numbers with
keys, lookups left and rows wanted and no lookup has failed, and stops for
nothing else.  It returns the failure that it stops at, or just the rows that it
found.  All this is so exactly where there can be memory for as many rows as it
may find: elsewhere it is cut short before the first lookup. -/
theorem scan_looks_up_in_order (scanner : Scanner) (rowSize : Nat)
    (lookup : σ → Bytes → Except StoreError (Option ρ) × σ) (start : Bytes)
    (count : Nat) (state : σ) :
    let scanned := scanner.scan lookup rowSize start count state
    let recorded :=
      scanner.scan (traced lookup) rowSize start count (state, [])
    let trace := recorded.2.2
    recorded.1 = scanned.1 ∧ recorded.2.1 = scanned.2 ∧
    (scanner.space.id? start = none →
      trace = [] ∧ scanned =
        (.error (.reported (.invalidScanKey (Text.repair start))), state)) ∧
    ∀ first, scanner.space.id? start = some first →
      (2 ^ 63 ≤ min count scanner.lookupLimit * rowSize →
        trace = [] ∧ scanned = (.error .cutShort, state)) ∧
      (min count scanner.lookupLimit * rowSize < 2 ^ 63 →
        trace.map (fun query => some query.key) =
          (List.range' first trace.length).map scanner.keyAt? ∧
        (∀ id ∈ List.range' first trace.length,
          id < 10 ^ scanner.space.width ∧ id < 2 ^ 64) ∧
        trace.length ≤ scanner.lookupLimit ∧
        (∀ i < trace.length, (Query.rows (trace.take i)).length < count ∧
          ∀ query ∈ trace.take i, ∃ row, query.answer = .ok row) ∧
        (∀ halt, scanned.1 = .error halt →
          ∃ before key e, halt = .reported e ∧
            trace = before ++ [⟨key, .error e⟩]) ∧
        ∀ rows, scanned.1 = .ok rows →
          (∀ query ∈ trace, ∃ row, query.answer = .ok row) ∧
          rows = Query.rows trace ∧
          rows.length ≤ min count scanner.lookupLimit ∧
          (rows.length < count → trace.length = scanner.lookupLimit ∨
            ∀ id, first ≤ id → id < 10 ^ scanner.space.width → id < 2 ^ 64 →
              id ∈ List.range' first trace.length)) := by
  intro scanned recorded trace
  obtain ⟨hresult, hlast⟩ :
      recorded.1 = scanned.1 ∧ recorded.2.1 = scanned.2 :=
    (agree_traced lookup).scan scanner rowSize start count rfl
  refine ⟨hresult, hlast, ?_, ?_⟩
  · intro hstart
    have hid : scanner.idOf start =
        .error (.invalidScanKey (Text.repair start)) := by
      rw [idOf, hstart]
    constructor
    · simp only [trace, recorded, scan_eq, hid]
    · simp only [scanned, scan_eq, hid]
  · intro first hfirst
    have hid : scanner.idOf start = .ok first := idOf_eq_ok_iff.2 hfirst
    constructor
    · intro hmany
      have hmemory : ¬scanner.hasMemory rowSize count = true :=
        fun hmemory => hmany.not_gt (hasMemory_iff.1 hmemory)
      constructor
      · simp only [trace, recorded, scan_of_no_memory hid hmemory]
      · exact scan_of_no_memory hid hmemory state
    · intro hfew
      obtain ⟨made, failure?, h, houtcome, rfl⟩ :=
        traced_of_memory hid (hasMemory_iff.2 hfew) lookup state
      have hscanned : scanned.1 =
          (outcome [] trace failure?).mapError .reported :=
        hresult.symm.trans houtcome
      refine ⟨h.keys, ?_, h.length_le, fun i hi => h.before hi, ?_, ?_⟩
      · intro id hid
        exact lt_min_iff.1 (h.lt_idBound hid)
      · intro halt hhalt
        exact h.of_halt (hscanned.symm.trans hhalt)
      · intro rows hrows
        exact h.of_rows (hscanned.symm.trans hrows)

def digitScanner : Scanner where
  space := ⟨Bytes.ofString "key", 1⟩
  lookupLimit := 100
  width_pos := by decide
  width_le := by decide

def alternating (calls : Nat) (_ : Bytes) :
    Except StoreError (Option Nat) × Nat :=
  (.ok (if calls % 2 = 0 then some calls else none), calls + 1)

/-- With one digit, a scan for nine rows from the seventh key on ends after the
ninth. -/
theorem scan_looks_up_in_order_digitScanner :
    let start := Bytes.ofString "key7"
    let trace :=
      (digitScanner.scan (traced alternating) 8 start 9 (0, [])).2.2
    digitScanner.space.id? start = some 7 ∧
      trace.map (fun query => some query.key) =
        [7, 8, 9].map digitScanner.keyAt? ∧
      Query.rows trace = [0, 2] := by
  intro start trace
  have hstart : digitScanner.space.id? start = some 7 := by decide
  have hlength : trace.length = 3 := by decide +kernel
  obtain ⟨-, -, -, hscan⟩ :=
    scan_looks_up_in_order digitScanner 8 alternating start 9 0
  obtain ⟨hkeys, -, -, -, -, hrows⟩ := (hscan 7 hstart).2 (by decide)
  obtain ⟨-, hfound, -⟩ := hrows [0, 2] (by decide +kernel)
  refine ⟨hstart, ?_, hfound.symm⟩
  rw [hkeys, hlength]
  rfl

def tirelessScanner : Scanner where
  space := ⟨Bytes.ofString "user", 1⟩
  lookupLimit := UInt64.size - 1
  width_pos := by decide
  width_le := by decide

/-- The ten keys that there are could be looked up for any number of rows, but no
lookup is made. -/
theorem longest_scan_is_cut_short :
    tirelessScanner.space.id? (Bytes.ofString "user0") = some 0 ∧
      tirelessScanner.scan alternating Memory.listSize
        (Bytes.ofString "user0") (UInt64.size - 1) 0 =
          (.error .cutShort, 0) := by
  have hstart : tirelessScanner.space.id? (Bytes.ofString "user0") = some 0 := by
    decide
  refine ⟨hstart, ?_⟩
  exact scan_of_no_memory (idOf_eq_ok_iff.2 hstart) (by decide) 0

end Scanner

end TieredCache
