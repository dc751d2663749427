import Mathlib
import TieredCache.Store.Scan

/-!
# Scans and their lookups

A scan does to a state what its lookups do.  Two kinds of lookups that agree
from related states make scans that agree, and a scan fails only because of its
start key or because a lookup does.  Where lookups do not fail, a scan from a
key in use finds something.
-/

namespace TieredCache.Scanner

variable {σ τ ρ : Type}
  {lookup : σ → Bytes → Except StoreError (Option ρ) × σ}
  {lookup' : τ → Bytes → Except StoreError (Option ρ) × τ}
  {Related : σ → τ → Prop}

theorem collect_of_keyless {scanner : Scanner} {id : Nat}
    (hkey : scanner.keyAt? id = none) (rows : List ρ) (lookups wanted : Nat)
    (state : σ) :
    scanner.collect lookup rows (lookups + 1) (wanted + 1) id state =
      (.ok rows.reverse, state) := by
  simp [collect, hkey]

theorem collect_of_key {scanner : Scanner} {id : Nat} {key : Bytes}
    (hkey : scanner.keyAt? id = some key) (rows : List ρ) (lookups wanted : Nat)
    (state : σ) :
    scanner.collect lookup rows (lookups + 1) (wanted + 1) id state =
      match lookup state key with
      | (.error e, next) => (.error e, next)
      | (.ok none, next) =>
          scanner.collect lookup rows lookups (wanted + 1) (id + 1) next
      | (.ok (some row), next) =>
          scanner.collect lookup (row :: rows) lookups wanted (id + 1)
            next := by
  rcases hlookup : lookup state key with ⟨found, next⟩
  rcases found with e | _ | row
  · simp [collect, hkey, hlookup]
  · simp [collect, hkey, hlookup]
  · simp [collect, hkey, hlookup]

def Agree (lookup : σ → Bytes → Except StoreError (Option ρ) × σ)
    (lookup' : τ → Bytes → Except StoreError (Option ρ) × τ)
    (Related : σ → τ → Prop) : Prop :=
  ∀ state state' key, Related state state' →
    (lookup state key).1 = (lookup' state' key).1 ∧
      Related (lookup state key).2 (lookup' state' key).2

theorem Agree.collect (h : Agree lookup lookup' Related) (scanner : Scanner)
    (rows : List ρ) (lookups wanted id : Nat) {state : σ} {state' : τ}
    (hstate : Related state state') :
    (scanner.collect lookup rows lookups wanted id state).1 =
        (scanner.collect lookup' rows lookups wanted id state').1 ∧
      Related (scanner.collect lookup rows lookups wanted id state).2
        (scanner.collect lookup' rows lookups wanted id state').2 := by
  induction lookups generalizing wanted id rows state state' with
  | zero => exact ⟨rfl, hstate⟩
  | succ lookups ih =>
      cases wanted with
      | zero => exact ⟨rfl, hstate⟩
      | succ wanted =>
          cases hkey : scanner.keyAt? id with
          | none =>
              rw [collect_of_keyless hkey, collect_of_keyless hkey]
              exact ⟨rfl, hstate⟩
          | some key =>
              rw [collect_of_key hkey, collect_of_key hkey]
              obtain ⟨hsame, hnext⟩ := h state state' key hstate
              rcases hlookup : lookup state key with ⟨found, next⟩
              rcases hlookup' : lookup' state' key with ⟨found', next'⟩
              simp only [hlookup, hlookup'] at hsame hnext
              subst hsame
              cases found with
              | error e => exact ⟨rfl, hnext⟩
              | ok row =>
                  cases row with
                  | none => exact ih rows (wanted + 1) (id + 1) hnext
                  | some row => exact ih _ wanted (id + 1) hnext

theorem hasMemory_iff {scanner : Scanner} {rowSize count : Nat} :
    scanner.hasMemory rowSize count = true ↔
      min count scanner.lookupLimit * rowSize < 2 ^ 63 :=
  Memory.holds_iff

theorem scan_eq (scanner : Scanner) (rowSize : Nat) (start : Bytes)
    (count : Nat) (state : σ) :
    scanner.scan lookup rowSize start count state =
      match scanner.idOf start with
      | .error e => (.error (.reported e), state)
      | .ok id =>
          if scanner.hasMemory rowSize count then
            ((scanner.collect lookup [] scanner.lookupLimit count id
                state).1.mapError .reported,
              (scanner.collect lookup [] scanner.lookupLimit count id state).2)
          else (.error .cutShort, state) := by
  unfold Scanner.scan
  rfl

theorem scan_of_memory {scanner : Scanner} {rowSize count id : Nat}
    {start : Bytes} (hstart : scanner.idOf start = .ok id)
    (hmemory : scanner.hasMemory rowSize count = true) (state : σ) :
    scanner.scan lookup rowSize start count state =
      ((scanner.collect lookup [] scanner.lookupLimit count id
          state).1.mapError .reported,
        (scanner.collect lookup [] scanner.lookupLimit count id state).2) := by
  rw [scan_eq, hstart]
  exact if_pos hmemory

theorem scan_of_no_memory {scanner : Scanner} {rowSize count id : Nat}
    {start : Bytes} (hstart : scanner.idOf start = .ok id)
    (hmemory : ¬scanner.hasMemory rowSize count = true) (state : σ) :
    scanner.scan lookup rowSize start count state =
      (.error .cutShort, state) := by
  rw [scan_eq, hstart]
  exact if_neg hmemory

theorem Agree.scan (h : Agree lookup lookup' Related) (scanner : Scanner)
    (rowSize : Nat) (start : Bytes) (count : Nat) {state : σ} {state' : τ}
    (hstate : Related state state') :
    (scanner.scan lookup rowSize start count state).1 =
        (scanner.scan lookup' rowSize start count state').1 ∧
      Related (scanner.scan lookup rowSize start count state).2
        (scanner.scan lookup' rowSize start count state').2 := by
  rw [scan_eq, scan_eq]
  cases scanner.idOf start with
  | error e => exact ⟨rfl, hstate⟩
  | ok id =>
      obtain ⟨hrows, hnext⟩ :=
        h.collect scanner [] scanner.lookupLimit count id hstate
      dsimp only
      split
      · exact ⟨congrArg (Except.mapError Halt.reported) hrows, hnext⟩
      · exact ⟨rfl, hstate⟩

section Keeps

variable {Inv : σ → Prop}
  (hlookup : ∀ state key, Inv state → Inv (lookup state key).2)

include hlookup

theorem agree_of_keeps :
    Agree lookup lookup fun state state' => state = state' ∧ Inv state := by
  rintro state _ key ⟨rfl, hstate⟩
  exact ⟨rfl, rfl, hlookup state key hstate⟩

theorem collect_keeps (scanner : Scanner) (rows : List ρ)
    (lookups wanted id : Nat) {state : σ} (hstate : Inv state) :
    Inv (scanner.collect lookup rows lookups wanted id state).2 :=
  ((agree_of_keeps hlookup).collect scanner rows lookups wanted id
    ⟨rfl, hstate⟩).2.2

theorem scan_keeps (scanner : Scanner) (rowSize : Nat) (start : Bytes)
    (count : Nat) {state : σ} (hstate : Inv state) :
    Inv (scanner.scan lookup rowSize start count state).2 :=
  ((agree_of_keeps hlookup).scan scanner rowSize start count
    ⟨rfl, hstate⟩).2.2

end Keeps

theorem collect_ne_error {Inv : σ → Prop} {e : StoreError}
    (hlookup : ∀ state key, Inv state →
      (lookup state key).1 ≠ .error e ∧ Inv (lookup state key).2)
    (scanner : Scanner) (rows : List ρ) (lookups wanted id : Nat) {state : σ}
    (hstate : Inv state) :
    (scanner.collect lookup rows lookups wanted id state).1 ≠ .error e := by
  fun_induction collect lookup scanner rows lookups wanted id state with
  | case1 | case2 | case3 => simp
  | case4 rows lookups wanted id state key hkey cause next hfailed =>
      simpa [hfailed] using (hlookup state key hstate).1
  | case5 rows lookups wanted id state key hkey next hmissed ih =>
      exact ih (by simpa [hmissed] using (hlookup state key hstate).2)
  | case6 rows lookups wanted id state key hkey row next hfound ih =>
      exact ih (by simpa [hfound] using (hlookup state key hstate).2)

theorem scan_ne_reported {Inv : σ → Prop} {e : StoreError}
    (hlookup : ∀ state key, Inv state →
      (lookup state key).1 ≠ .error e ∧ Inv (lookup state key).2)
    (scanner : Scanner) (rowSize : Nat) {start : Bytes} (count : Nat)
    {state : σ} (hstart : scanner.idOf start ≠ .error e)
    (hstate : Inv state) :
    (scanner.scan lookup rowSize start count state).1 ≠
      .error (.reported e) := by
  rw [scan_eq]
  cases hid : scanner.idOf start with
  | error cause =>
      rw [hid] at hstart
      simpa using hstart
  | ok id =>
      have hcollect := collect_ne_error hlookup scanner []
        scanner.lookupLimit count id hstate
      dsimp only
      split
      · rcases hrows : (scanner.collect lookup [] scanner.lookupLimit count id
          state).1 with cause | rows
        · rw [hrows] at hcollect
          simpa [Except.mapError] using hcollect
        · simp [Except.mapError]
      · simp

/-! ## Scans without errors -/

section Answered

variable {Inv : σ → Prop} (hlookup : ∀ state key, Inv state →
  (∃ found, (lookup state key).1 = .ok found) ∧ Inv (lookup state key).2)

include hlookup

/-- A scan whose lookups do not fail only adds to the rows that it has found. -/
theorem collect_answered (scanner : Scanner) (rows : List ρ)
    (lookups wanted id : Nat) {state : σ} (hstate : Inv state) :
    ∃ found,
      (scanner.collect lookup rows lookups wanted id state).1 = .ok found ∧
        rows.reverse <+: found ∧
        Inv (scanner.collect lookup rows lookups wanted id state).2 := by
  fun_induction collect lookup scanner rows lookups wanted id state with
  | case1 | case2 | case3 => exact ⟨_, rfl, List.prefix_rfl, hstate⟩
  | case4 rows lookups wanted id state key hkey e next hfailed =>
      obtain ⟨⟨row, hrow⟩, -⟩ := hlookup state key hstate
      rw [hfailed] at hrow
      cases hrow
  | case5 rows lookups wanted id state key hkey next hmissed ih =>
      exact ih (by simpa [hmissed] using (hlookup state key hstate).2)
  | case6 rows lookups wanted id state key hkey row next hfound ih =>
      obtain ⟨all, hall, hmore, hlast⟩ :=
        ih (by simpa [hfound] using (hlookup state key hstate).2)
      rw [List.reverse_cons] at hmore
      exact ⟨all, hall, (List.prefix_append _ _).trans hmore, hlast⟩

theorem scan_answered {scanner : Scanner} {start : Bytes} {id : Nat}
    (hstart : scanner.idOf start = .ok id) {rowSize count : Nat}
    (hmemory : scanner.hasMemory rowSize count = true) {state : σ}
    (hstate : Inv state) :
    ∃ found, (scanner.scan lookup rowSize start count state).1 = .ok found := by
  obtain ⟨found, hfound, -⟩ :=
    collect_answered hlookup scanner [] scanner.lookupLimit count id hstate
  rw [scan_of_memory hstart hmemory, hfound]
  exact ⟨found, rfl⟩

theorem scan_ne_nil {scanner : Scanner} {start : Bytes}
    {id count : Nat} (rowSize : Nat) (hstart : scanner.idOf start = .ok id)
    (hkey : scanner.keyAt? id = some start) (hcount : 0 < count)
    (hlimit : 0 < scanner.lookupLimit) {state : σ} (hstate : Inv state)
    {row : ρ} (hrow : (lookup state start).1 = .ok (some row)) :
    (scanner.scan lookup rowSize start count state).1 ≠ .ok [] := by
  obtain ⟨wanted, rfl⟩ := Nat.exists_eq_succ_of_ne_zero hcount.ne'
  obtain ⟨lookups, hlookups⟩ := Nat.exists_eq_succ_of_ne_zero hlimit.ne'
  obtain ⟨-, hnext⟩ := hlookup state start hstate
  rcases hresult : lookup state start with ⟨found, next⟩
  simp only [hresult] at hrow hnext
  subst hrow
  obtain ⟨all, hall, hmore, -⟩ :=
    collect_answered hlookup scanner [row] lookups wanted (id + 1) hnext
  by_cases hmemory : scanner.hasMemory rowSize (wanted + 1) = true
  · rw [scan_of_memory hstart hmemory, hlookups, collect_of_key hkey, hresult]
    simp only [hall, Except.mapError, ne_eq, Except.ok.injEq]
    rintro rfl
    simp at hmore
  · rw [scan_of_no_memory hstart hmemory]
    simp

end Answered

end TieredCache.Scanner
