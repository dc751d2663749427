import Mathlib
import TieredCache.Proofs.KeySpace
import TieredCache.Proofs.Store.Room

/-!
# The window of a scan

A scan looks up a window of numbers: those from its start key on, as many as it
may look up, as long as they have keys.  The lookups move items between tiers.
While they drop nothing, no later lookup finds anything else than it would have
found at first, and the scan shows the records of the window as they were.
-/

namespace TieredCache

/-! ## Windows -/

namespace Scanner

variable {scanner : Scanner} {id lookups : Nat}

def idBound (scanner : Scanner) : Nat := min (10 ^ scanner.space.width) idLimit

def window (scanner : Scanner) (id lookups : Nat) : List Nat :=
  List.range' id (min (id + lookups) scanner.idBound - id)

theorem keyAt?_eq (scanner : Scanner) (id : Nat) :
    scanner.keyAt? id =
      if id < scanner.idBound then some (scanner.space.key id) else none := by
  have hdigits : (Decimal.digits id).length ≤ scanner.space.width ↔
      id < 10 ^ scanner.space.width :=
    Decimal.length_digits_le_iff scanner.width_pos id
  unfold keyAt? KeySpace.key? idBound
  by_cases hlimit : id < idLimit
  · simp [hlimit, hdigits]
  · simp [hlimit]

theorem keyAt?_eq_some_iff {key : Bytes} : scanner.keyAt? id = some key ↔
    id < scanner.idBound ∧ scanner.space.key id = key := by
  simp [keyAt?_eq]

theorem mem_window {i : Nat} : i ∈ scanner.window id lookups ↔
    id ≤ i ∧ i < id + lookups ∧ i < scanner.idBound := by
  simp only [window, List.mem_range'_1]
  omega

@[simp] theorem window_zero : scanner.window id 0 = [] := by
  simp [window]

theorem window_of_le (h : scanner.idBound ≤ id) :
    scanner.window id lookups = [] := by
  simp [window, show min (id + lookups) scanner.idBound - id = 0 by omega]

theorem window_succ (h : id < scanner.idBound) :
    scanner.window id (lookups + 1) =
      id :: scanner.window (id + 1) lookups := by
  have hlength : min (id + (lookups + 1)) scanner.idBound - id =
      min (id + 1 + lookups) scanner.idBound - (id + 1) + 1 := by
    omega
  rw [window, hlength, List.range'_succ, window]

theorem id?_of_mem_window {i : Nat} (h : i ∈ scanner.window id lookups) :
    scanner.space.id? (scanner.space.key i) = some i := by
  obtain ⟨-, -, hbound⟩ := mem_window.1 h
  unfold idBound at hbound
  apply KeySpace.id?_key
  · omega
  · rw [Decimal.length_digits_le_iff scanner.width_pos]
    exact lt_of_lt_of_le hbound (min_le_left _ _)

theorem keys_nodup (scanner : Scanner) (id lookups : Nat) :
    ((scanner.window id lookups).map scanner.space.key).Nodup := by
  refine (List.nodup_range' 1).map_on ?_
  intro i hi j hj hkeys
  have hsame := congrArg scanner.space.id? hkeys
  rw [id?_of_mem_window hi, id?_of_mem_window hj] at hsame
  exact Option.some.inj hsame

section Steady

variable {σ ρ : Type}
  {lookup : σ → Bytes → Except StoreError (Option ρ) × σ}
  {Inv : σ → Prop} {dropped : σ → Nat} {rowAt : Nat → Option ρ}
  (hgrows : ∀ state key, dropped state ≤ dropped (lookup state key).2)
  (hkeeps : ∀ state key, Inv state →
    dropped (lookup state key).2 = dropped state → Inv (lookup state key).2)

include hgrows

theorem le_dropped_collect (scanner : Scanner) (rows : List ρ)
    (lookups wanted id : Nat) (state : σ) :
    dropped state ≤
      dropped (scanner.collect lookup rows lookups wanted id state).2 := by
  have hlookup : ∀ next key, dropped state ≤ dropped next →
      dropped state ≤ dropped (lookup next key).2 :=
    fun next key hle => hle.trans (hgrows next key)
  exact collect_keeps hlookup scanner rows lookups wanted id le_rfl

include hkeeps

/-- What a lookup drops stays counted to the end of the scan, so it drops
nothing when the scan does not. -/
theorem keeps_of_none_dropped {answer : Except StoreError (Option ρ)}
    {key : Bytes} {state next : σ}
    (hlookup : lookup state key = (answer, next))
    (hstate : Inv state) (scanner : Scanner) (rows : List ρ)
    (lookups wanted id : Nat)
    (hnone : dropped
        (scanner.collect lookup rows lookups wanted id next).2 =
      dropped state) :
    Inv next ∧
      dropped (scanner.collect lookup rows lookups wanted id next).2 =
        dropped next := by
  have hgrown := hgrows state key
  have hkept := hkeeps state key hstate
  rw [hlookup] at hgrown hkept
  have hafter :=
    le_dropped_collect hgrows scanner rows lookups wanted id next
  have hsame : dropped next = dropped state := by
    simp only at hgrown
    omega
  exact ⟨hkept hsame, hnone.trans hsame.symm⟩

/-- Lookups that drop nothing keep what later ones find, and together they find
the first rows of the window. -/
theorem collect_window (scanner : Scanner) (rows : List ρ)
    (lookups wanted id : Nat) {state : σ} (hstate : Inv state)
    (hfound : ∀ state, Inv state → ∀ i ∈ scanner.window id lookups,
      (lookup state (scanner.space.key i)).1 = .ok (rowAt i))
    (hnone : dropped
        (scanner.collect lookup rows lookups wanted id state).2 =
      dropped state) :
    (scanner.collect lookup rows lookups wanted id state).1 =
      .ok (rows.reverse ++
        ((scanner.window id lookups).filterMap rowAt).take wanted) := by
  fun_induction collect lookup scanner rows lookups wanted id state with
  | case1 | case2 => simp
  | case3 rows lookups wanted id state hkey =>
      rw [keyAt?_eq, ite_eq_right_iff] at hkey
      rw [window_of_le (by simpa using hkey)]
      simp
  | case4 rows lookups wanted id state key hkey e next hfailed =>
      obtain ⟨hid, rfl⟩ := keyAt?_eq_some_iff.1 hkey
      rw [window_succ hid] at hfound
      have hrow := hfound state hstate id List.mem_cons_self
      rw [hfailed] at hrow
      cases hrow
  | case5 rows lookups wanted id state key hkey next hmissed ih =>
      obtain ⟨hid, rfl⟩ := keyAt?_eq_some_iff.1 hkey
      rw [window_succ hid] at hfound ⊢
      have hrow := hfound state hstate id List.mem_cons_self
      rw [hmissed] at hrow
      have hat : rowAt id = none := (Except.ok.inj hrow).symm
      obtain ⟨hnext, hlater⟩ :=
        keeps_of_none_dropped hgrows hkeeps hmissed hstate _ _ _ _ _ hnone
      rw [ih hnext (fun state hinv i hi =>
        hfound state hinv i (List.mem_cons_of_mem id hi)) hlater]
      simp [hat]
  | case6 rows lookups wanted id state key hkey row next hlookup ih =>
      obtain ⟨hid, rfl⟩ := keyAt?_eq_some_iff.1 hkey
      rw [window_succ hid] at hfound ⊢
      have hrow := hfound state hstate id List.mem_cons_self
      rw [hlookup] at hrow
      have hat : rowAt id = some row := (Except.ok.inj hrow).symm
      obtain ⟨hnext, hlater⟩ :=
        keeps_of_none_dropped hgrows hkeeps hlookup hstate _ _ _ _ _ hnone
      rw [ih hnext (fun state hinv i hi =>
        hfound state hinv i (List.mem_cons_of_mem id hi)) hlater]
      simp [hat]

theorem scan_window {scanner : Scanner} {start : Bytes} {id rowSize : Nat}
    (hstart : scanner.idOf start = .ok id) {count : Nat}
    (hmemory : scanner.hasMemory rowSize count = true) {state : σ}
    (hstate : Inv state)
    (hfound : ∀ state, Inv state →
      ∀ i ∈ scanner.window id scanner.lookupLimit,
        (lookup state (scanner.space.key i)).1 = .ok (rowAt i))
    (hnone : dropped (scanner.scan lookup rowSize start count state).2 =
      dropped state) :
    (scanner.scan lookup rowSize start count state).1 =
      .ok (((scanner.window id scanner.lookupLimit).filterMap rowAt).take
        count) := by
  rw [scan_of_memory hstart hmemory] at hnone ⊢
  rw [collect_window hgrows hkeeps scanner [] scanner.lookupLimit count id
    hstate hfound hnone]
  rfl

end Steady

theorem collect_ends {σ ρ : Type}
    {lookup : σ → Bytes → Except StoreError (Option ρ) × σ} {Inv : σ → Prop}
    (hlookup : ∀ state key, Inv state →
      (∃ found, (lookup state key).1 = .ok found) ∧ Inv (lookup state key).2)
    (scanner : Scanner) (rows : List ρ) {lookups wanted id : Nat}
    (hwanted : lookups < wanted) (hid : id + lookups < scanner.idBound)
    {state : σ} (hstate : Inv state) :
    ∃ last, Inv last ∧
      (scanner.collect lookup rows (lookups + 1) wanted id state).2 =
        (lookup last (scanner.space.key (id + lookups))).2 := by
  induction lookups generalizing rows wanted id state with
  | zero =>
      obtain ⟨wanted, rfl⟩ := Nat.exists_eq_succ_of_ne_zero hwanted.ne'
      refine ⟨state, hstate, ?_⟩
      rw [Nat.add_zero] at hid ⊢
      rw [collect_of_key (keyAt?_eq_some_iff.2 ⟨hid, rfl⟩)]
      rcases lookup state (scanner.space.key id) with ⟨e | _ | row, next⟩
      · rfl
      · rfl
      · rfl
  | succ lookups ih =>
      obtain ⟨wanted, rfl⟩ :=
        Nat.exists_eq_succ_of_ne_zero (Nat.zero_lt_of_lt hwanted).ne'
      obtain ⟨⟨found, hok⟩, hnext⟩ :=
        hlookup state (scanner.space.key id) hstate
      rcases hfound : lookup state (scanner.space.key id) with ⟨answer, next⟩
      rw [hfound] at hok hnext
      simp only at hok
      subst hok
      rw [collect_of_key (keyAt?_eq_some_iff.2 ⟨by omega, rfl⟩), hfound]
      have hlast : id + 1 + lookups = id + (lookups + 1) := by omega
      rw [← hlast] at hid ⊢
      cases found with
      | none => exact ih rows (by omega) hid hnext
      | some row => exact ih (row :: rows) (by omega) hid hnext

end Scanner

namespace Store

variable {store : Store} {settings : Settings}
  {ledgers : Nat → Ledger Bytes} {records : Ledger Record}
  {fieldCount id : Nat} {start : Bytes} {names : Option (List Bytes)}

/-! ## Lookups that drop nothing -/

theorem Serves.findIn_of_none_dropped
    (h : store.Serves fieldCount ledgers records) {key : Bytes}
    (hnone : (store.findIn (store.routing.shardOfKey key) key
      names).2.nvmEvictions = store.nvmEvictions) :
    ∃ ledgers', (store.findIn (store.routing.shardOfKey key) key
      names).2.Serves fieldCount ledgers' records := by
  have hdropped : store.droppedByFind key = [] := by
    rw [nvmEvictions_findIn] at hnone
    apply List.eq_nil_of_length_eq_zero
    unfold droppedByFind
    omega
  obtain ⟨-, hnext⟩ := h.findIn key names
  rw [hdropped, Ledger.eraseAll_nil] at hnext
  exact hnext

/-! ## What a scan shows -/

def live (space : KeySpace) (records : Ledger Record) (ids : List Nat) :
    List Nat :=
  ids.filter fun id => (records.value? (space.key id)).isSome

theorem isSome_of_shown {record : Record} {found : Option Record}
    (h : shown fieldCount names (some record) = .ok found) : found.isSome := by
  cases names with
  | none =>
      simp only [shown] at h
      split at h
      · cases h
        rfl
      · cases h
  | some names =>
      simp only [shown] at h
      split at h
      · cases h
      · split at h
        · cases h
        · cases h
          rfl

theorem map_filterMap_shown {space : KeySpace} {rowAt : Nat → Option Record}
    {ids : List Nat}
    (hshown : ∀ i ∈ ids,
      shown fieldCount names (records.value? (space.key i)) =
        .ok (rowAt i)) :
    (ids.filterMap rowAt).map (fun row => .ok (some row)) =
      (live space records ids).map fun i =>
        shown fieldCount names (records.value? (space.key i)) := by
  induction ids with
  | nil => rfl
  | cons i rest ih =>
      have hrest := ih fun j hj => hshown j (List.mem_cons_of_mem i hj)
      have hrow := hshown i List.mem_cons_self
      unfold live at hrest ⊢
      cases hrecord : records.value? (space.key i) with
      | none =>
          rw [hrecord, shown] at hrow
          simp only [Except.ok.injEq] at hrow
          simp [hrecord, ← hrow, hrest]
      | some record =>
          rw [hrecord] at hrow
          obtain ⟨row, hsome⟩ :=
            Option.isSome_iff_exists.1 (isSome_of_shown hrow)
          rw [hsome] at hrow
          simp [hrecord, hsome, hrow, hrest]

theorem Serves.scan_window (h : store.Serves fieldCount ledgers records)
    (hstart : store.scanner.idOf start = .ok id) (worker : Nat) {count : Nat}
    (hmemory : store.scanner.hasMemory Memory.listSize count = true)
    (hnone : (store.scan worker start count names).2.nvmEvictions =
      store.nvmEvictions)
    (hshown : ∀ i ∈ live store.scanner.space records
        (store.scanner.window id store.scanner.lookupLimit),
      ∃ found, shown fieldCount names
        (records.value? (store.scanner.space.key i)) = .ok found) :
    ∃ rows, (store.scan worker start count names).1 = .ok rows ∧
      rows.map (fun row => .ok (some row)) =
        ((live store.scanner.space records
          (store.scanner.window id store.scanner.lookupLimit)).take count).map
          fun i => shown fieldCount names
            (records.value? (store.scanner.space.key i)) := by
  let space := store.scanner.space
  let rowAt (i : Nat) : Option Record :=
    (shown fieldCount names (records.value? (space.key i))).toOption.join
  let Inv (next : Store) : Prop :=
    next.routing = store.routing ∧
      ∃ ledgers, next.Serves fieldCount ledgers records
  have hrowAt : ∀ i ∈ store.scanner.window id store.scanner.lookupLimit,
      shown fieldCount names (records.value? (space.key i)) =
        .ok (rowAt i) := by
    intro i hi
    cases hrecord : records.value? (space.key i) with
    | none => simp [rowAt, hrecord, shown, Except.toOption]
    | some record =>
        obtain ⟨found, hfound⟩ := hshown i (by simp [live, hi, space, hrecord])
        rw [hrecord] at hfound
        simp [rowAt, hrecord, hfound, Except.toOption]
  have hgrows : ∀ (next : Store) key, next.nvmEvictions ≤
      (next.findIn (store.routing.shardOfKey key) key names).2.nvmEvictions :=
    fun next key => by rw [nvmEvictions_findIn]; omega
  have hkeeps : ∀ next key, Inv next →
      (Store.findIn next (store.routing.shardOfKey key) key
        names).2.nvmEvictions = next.nvmEvictions →
      Inv (Store.findIn next (store.routing.shardOfKey key) key names).2 := by
    rintro next key ⟨hrouting, ledgers, hnext⟩ hsame
    rw [← hrouting] at hsame ⊢
    exact ⟨(routing_findIn ..).trans hrouting,
      hnext.findIn_of_none_dropped hsame⟩
  have hfound : ∀ next, Inv next →
      ∀ i ∈ store.scanner.window id store.scanner.lookupLimit,
        (Store.findIn next (store.routing.shardOfKey (space.key i))
          (space.key i) names).1 = .ok (rowAt i) := by
    rintro next ⟨hrouting, ledgers, hnext⟩ i hi
    rw [← hrouting, (hnext.findIn (space.key i) names).1]
    exact hrowAt i hi
  rw [h.scan_eq] at hnone ⊢
  refine ⟨_, Scanner.scan_window hgrows hkeeps hstart hmemory
    ⟨rfl, ledgers, h⟩ hfound hnone, ?_⟩
  rw [List.map_take, List.map_take, map_filterMap_shown hrowAt]

/-- With reads by key, a scan that drops nothing shows the first of the records
that its window has when it begins, unless one of them cannot be shown alone.  It
shows nothing exactly where there can be no memory for as many records as it may
find. -/
theorem scan_shows_window (hcreate : create settings = .ok store)
    (hrouting : settings.readRouting = .key) (calls : List StoreCall) :
    let reached := (store.run calls).1
    let records := (store.run calls).2
    let scanner := reached.scanner
    scanner.space =
        ⟨Bytes.ofString settings.scan.stem, settings.scan.width.toNat⟩ ∧
      scanner.lookupLimit = settings.scan.lookupLimit.toNat ∧
      ∀ start id, scanner.idOf start = .ok id →
        let window := scanner.window id scanner.lookupLimit
        let found := live scanner.space records window
        (window.map scanner.space.key).Nodup ∧
        ∀ worker count names,
          (2 ^ 63 ≤ min count scanner.lookupLimit * 24 →
            reached.scan worker start count names =
              (.error .cutShort, reached)) ∧
          (min count scanner.lookupLimit * 24 < 2 ^ 63 →
            (reached.scan worker start count names).2.nvmEvictions =
              reached.nvmEvictions →
            (∀ i ∈ found, ∃ fields,
              (reached.read worker (scanner.space.key i) names).1 =
                .ok fields) →
            ∃ rows, (reached.scan worker start count names).1 = .ok rows ∧
              rows.map (fun row => .ok (some row)) =
                (found.take count).map fun i =>
                  shown settings.fieldCount.toNat names
                    (records.value? (scanner.space.key i))) := by
  intro reached records scanner
  have hfresh := fresh_create hcreate
  have hscanner : scanner = store.scanner := (settled_run store calls).1
  obtain ⟨ledgers, h⟩ := serves_run hcreate hrouting calls
  refine ⟨by rw [hscanner, hfresh.space], by rw [hscanner, hfresh.lookups], ?_⟩
  intro start id hstart window found
  refine ⟨scanner.keys_nodup id scanner.lookupLimit, ?_⟩
  intro worker count names
  constructor
  · intro hmany
    rw [h.scan_eq]
    exact Scanner.scan_of_no_memory hstart
      (fun hmemory => hmany.not_gt (Scanner.hasMemory_iff.1 hmemory)) reached
  · intro hfew hnone halone
    apply h.scan_window hstart worker (Scanner.hasMemory_iff.2 hfew) hnone
    intro i hi
    obtain ⟨fields, hfields⟩ := halone i hi
    rw [h.read_eq, (h.findIn (scanner.space.key i) names).1] at hfields
    exact ⟨fields, hfields⟩

/-! ### Two long records in one pool -/

def windowSettings : Settings where
  cacheSizeMb := 1
  poolCount := 2
  readRouting := .key
  scan := { stem := "", width := 1, lookupLimit := 3 }
  fieldCount := 1

/-- The last two keys are of one shard, the first is of the other. -/
def windowRecords (value : Bytes) : Ledger Record :=
  [([49], [⟨[2], [3]⟩]), ([50], [⟨[2], value⟩]), ([48], [⟨[2], value⟩])]

def windowCalls (value : Bytes) : List StoreCall :=
  (windowRecords value).map fun pair => .write pair.1 pair.2

section Long

variable {value : Bytes} (hvalue : value.length = 300000)

theorem value?_windowRecords (value : Bytes) :
    Ledger.value? (windowRecords value).reverse [48] = some [⟨[2], value⟩] ∧
      Ledger.value? (windowRecords value).reverse [49] =
        some [⟨[2], [3]⟩] ∧
      Ledger.value? (windowRecords value).reverse [50] =
        some [⟨[2], value⟩] :=
  ⟨rfl, rfl, rfl⟩

theorem keys_windowSpace {space : KeySpace} (hspace : space = ⟨[], 1⟩) :
    space.key 0 = [48] ∧ space.key 1 = [49] ∧ space.key 2 = [50] := by
  rw [hspace]
  exact ⟨by cbv, by cbv, by cbv⟩

theorem live_windowRecords {scanner : Scanner}
    (hspace : scanner.space = ⟨[], 1⟩) (hlimit : scanner.lookupLimit = 3) :
    live scanner.space (windowRecords value).reverse
      (scanner.window 0 scanner.lookupLimit) = [0, 1, 2] := by
  have hwindow : scanner.window 0 scanner.lookupLimit = [0, 1, 2] := by
    rw [Scanner.window, Scanner.idBound, hspace, hlimit]
    decide
  rw [hwindow]
  simp [live, keys_windowSpace hspace, value?_windowRecords]

include hvalue

theorem size_longRecord : Row.size [⟨[2], value⟩] = 300009 := by
  rw [Row.size_eq_sum, List.map_singleton, List.sum_singleton, Row.fieldSize,
    hvalue, Row.fieldOverhead, List.length_singleton]

theorem mem_windowRecords {key : Bytes} {record : Record}
    (h : (key, record) ∈ windowRecords value) :
    key.length = 1 ∧ record.length = 1 ∧ Row.size record ≤ 300009 := by
  have hlong := size_longRecord hvalue
  simp only [windowRecords, List.mem_cons, Prod.mk.injEq, List.not_mem_nil,
    or_false] at h
  rcases h with ⟨rfl, rfl⟩ | ⟨rfl, rfl⟩ | ⟨rfl, rfl⟩
  · decide
  · exact ⟨rfl, rfl, hlong.le⟩
  · exact ⟨rfl, rfl, hlong.le⟩

theorem windowRecords_fit (key : Bytes) (record : Record)
    (h : (key, record) ∈ windowRecords value) :
    (∀ field ∈ record, Row.FieldFits field) ∧
      Fits (poolBytes windowSettings) key record ∧
      key ∈ (windowRecords value).keys ∧
      entrySize key (Row.rowBytes record) ≤ 300010 := by
  obtain ⟨hkey, -, hsize⟩ := mem_windowRecords hvalue h
  have hroom : poolBytes windowSettings = 524288 := rfl
  refine ⟨?_, ⟨?_, ?_, ?_⟩, Ledger.mem_keys.2 ⟨record, h⟩, ?_⟩
  · intro field hfield
    have hfieldSize := List.single_le_sum (fun _ _ => Nat.zero_le _) _
      (List.mem_map_of_mem (f := Row.fieldSize) hfield)
    rw [← Row.size_eq_sum] at hfieldSize
    simp only [Row.fieldSize] at hfieldSize
    unfold Row.FieldFits
    rw [Row.chunkLimit_eq]
    omega
  · rw [hkey]
    decide
  · exact hsize.trans (by decide)
  · rw [hkey, hroom]
    omega
  · rw [entrySize, hkey, Row.length_rowBytes_eq_size]
    omega

theorem run_windowCalls :
    ∃ store, create windowSettings = .ok store ∧
      (store.run (windowCalls value)).1.Ample (windowRecords value).keys
        300010 ∧
      (store.run (windowCalls value)).2 = (windowRecords value).reverse := by
  obtain ⟨store, hcreate, hrooms⟩ : ∃ store,
      create windowSettings = .ok store ∧
        store.engine.pools.toList.map
          (fun pool => (pool.ramBytes, pool.nvm.capacity)) =
            [(524288, 134217728000), (524288, 134217728000)] :=
    ⟨_, rfl, rfl⟩
  have hkeys : (windowRecords value).keys = [[49], [50], [48]] := rfl
  refine ⟨store, hcreate, run_writes hcreate ⟨?_, ?_⟩ _ ?_
    (windowRecords_fit hvalue)⟩
  · exact ⟨_, (fresh_create hcreate).keeps, by simp⟩
  · intro shard room hroom
    obtain ⟨pool, hpool, rfl⟩ := Option.map_eq_some_iff.1 hroom
    rw [← Array.getElem?_toList] at hpool
    have hmem := List.mem_map_of_mem
      (f := fun pool : Pool => (pool.ramBytes, pool.nvm.capacity))
      (List.mem_of_getElem? hpool)
    rw [hrooms] at hmem
    simp only [List.mem_cons, List.not_mem_nil, or_false, or_self] at hmem
    rw [hmem, hkeys]
    decide
  · rw [hkeys]
    decide

theorem inRam?_windowCalls (hcreate : create windowSettings = .ok store) :
    let reached := (store.run (windowCalls value)).1
    reached.engine.inRam? (reached.routing.shardOfKey [48]) [48] =
      some (Row.rowBytes [⟨[2], value⟩]) := by
  let calls : List StoreCall :=
    [.write [49] [⟨[2], [3]⟩], .write [50] [⟨[2], value⟩]]
  have h := sharded_run hcreate calls
  have hwritten : ((store.run calls).1.write [48] [⟨[2], value⟩]).1 =
      .ok () := by
    obtain ⟨hfields, hfits, -⟩ := windowRecords_fit hvalue [48]
      [⟨[2], value⟩] (by simp [windowRecords])
    rw [h.write_fst, refusal?_eq_none_iff.2 ⟨hfields, hfits⟩]
  obtain ⟨-, -, hram, -⟩ := h.written hwritten
  have hcalls : windowCalls value =
      calls ++ [.write [48] [⟨[2], value⟩]] := rfl
  rw [hcalls, run_concat, step_write hwritten]
  exact hram

theorem shown_windowRecords (key : Bytes) :
    ∃ found, shown 1 none
      (Ledger.value? (windowRecords value).reverse key) = .ok found := by
  cases hrecord : Ledger.value? (windowRecords value).reverse key with
  | none => exact ⟨none, rfl⟩
  | some record =>
      obtain ⟨-, hfields, -⟩ := mem_windowRecords hvalue
        (List.mem_reverse.1 (Ledger.mem_of_value? hrecord))
      exact ⟨some record, if_pos hfields⟩

theorem Serves.below_windowRecords
    (h : store.Serves 1 ledgers (windowRecords value).reverse)
    (hsharded : store.Sharded windowSettings)
    (hram : store.engine.inRam? 1 [48] =
      some (Row.rowBytes [⟨[2], value⟩]))
    (hshard : store.routing.shardOfKey [50] = 1) :
    store.engine.inRam? 1 [50] = none := by
  obtain ⟨below, hroom⟩ := hsharded.room [50]
  have hstored := h.rows [50]
  rw [(value?_windowRecords value).2.2, Option.map_some, hshard] at hstored
  rw [hshard] at hroom
  apply h.keeps.inRam?_eq_none hroom hram (by decide) hstored
  simp only [entrySize, Row.length_rowBytes_eq_size, size_longRecord hvalue]
  decide

theorem Serves.inRam?_scan_windowRecords
    (h : store.Serves 1 ledgers (windowRecords value).reverse)
    (hample : store.Ample (windowRecords value).keys 300010)
    (hspace : store.scanner.space = ⟨[], 1⟩)
    (hlimit : store.scanner.lookupLimit = 3) :
    (store.scan 7 [48] 5 none).2.engine.inRam?
      (store.routing.shardOfKey [50]) [50] =
        some (Row.rowBytes [⟨[2], value⟩]) := by
  let Inv (next : Store) : Prop :=
    next.routing = store.routing ∧
      next.Ample (windowRecords value).keys 300010 ∧
      ∃ ledgers, next.Serves 1 ledgers (windowRecords value).reverse
  have hlookup : ∀ next key, Inv next →
      (∃ found, (Store.findIn next (store.routing.shardOfKey key) key
        none).1 = .ok found) ∧
        Inv (Store.findIn next (store.routing.shardOfKey key) key none).2 := by
    rintro next key ⟨hrouting, hroom, ledgers, hnext⟩
    obtain ⟨hafter, hcount⟩ := hroom.findIn (store.routing.shardOfKey key) key
      none
    rw [← hrouting] at hafter hcount ⊢
    rw [(hnext.findIn key none).1]
    exact ⟨shown_windowRecords hvalue key, (routing_findIn ..).trans hrouting,
      hafter, hnext.findIn_of_none_dropped hcount⟩
  have hstart : store.scanner.idOf [48] = .ok 0 := by
    rw [Scanner.idOf, hspace]
    decide
  have hmemory : store.scanner.hasMemory Memory.listSize 5 = true := by
    rw [Scanner.hasMemory, hlimit]
    decide
  have hbound : 0 + 2 < store.scanner.idBound := by
    rw [Scanner.idBound, hspace]
    decide
  obtain ⟨last, ⟨hrouting, -, ledgers, hlast⟩, hends⟩ :=
    Scanner.collect_ends hlookup store.scanner [] (by decide : 2 < 5) hbound
      ⟨rfl, hample, ledgers, h⟩
  have hkey : store.scanner.space.key (0 + 2) = [50] :=
    (keys_windowSpace hspace).2.2
  have hrow := hlast.rows [50]
  rw [(value?_windowRecords value).2.2, Option.map_some] at hrow
  obtain ⟨-, hram⟩ := hlast.keeps.find (hlast.shard_lt [50]) [50]
  rw [h.scan_eq, Scanner.scan_of_memory hstart hmemory, hlimit]
  simp only [hends, hkey, findIn_snd]
  rw [← hrouting]
  rw [hrow] at hram
  exact hram

end Long

/-- A scan of three records fetches the last of them from below RAM. -/
theorem scan_shows_window_windowSettings :
    ∃ value : Bytes, value.length = 300000 ∧
      ∃ store, create windowSettings = .ok store ∧
      windowSettings.readRouting = .key ∧
      let reached := (store.run (windowCalls value)).1
      let scanned := reached.scan 7 [48] 5 none
      scanned.1 =
          .ok [[⟨[2], value⟩], [⟨[2], [3]⟩], [⟨[2], value⟩]] ∧
        scanned.2.nvmEvictions = reached.nvmEvictions ∧
        reached.engine.inRam? 1 [50] = none ∧
        scanned.2.engine.inRam? 1 [50] =
          some (Row.rowBytes [⟨[2], value⟩]) := by
  obtain ⟨value, hvalue⟩ : ∃ value : Bytes, value.length = 300000 :=
    ⟨List.replicate 300000 7, List.length_replicate⟩
  obtain ⟨store, hcreate, hample, hrecords⟩ := run_windowCalls hvalue
  refine ⟨value, hvalue, store, hcreate, rfl, ?_⟩
  obtain ⟨ledgers, h⟩ := serves_run hcreate rfl (windowCalls value)
  have hsharded := sharded_run hcreate (windowCalls value)
  have hram := inRam?_windowCalls hvalue hcreate
  have hwindows := scan_shows_window hcreate rfl (windowCalls value)
  rw [hrecords] at h hwindows
  -- What the calls come to is not to be worked out from here on.
  generalize (store.run (windowCalls value)).1 = reached at *
  obtain ⟨hspace, hlimit, hscan⟩ := hwindows
  have hfirst : reached.routing.shardOfKey [48] = 1 := by
    rw [hsharded.shardOfKey]
    decide
  have hlast : reached.routing.shardOfKey [50] = 1 := by
    rw [hsharded.shardOfKey]
    decide
  have hnone := (hample.scan 7 [48] 5 none).2
  simp only [hfirst] at hram
  have hbefore := h.below_windowRecords hvalue hsharded hram hlast
  have hafter := h.inRam?_scan_windowRecords hvalue hample hspace hlimit
  rw [hlast] at hafter
  have hstart : reached.scanner.idOf [48] = .ok 0 := by
    rw [Scanner.idOf, hspace]
    decide
  have hmemory : min 5 reached.scanner.lookupLimit * 24 < 2 ^ 63 := by
    rw [hlimit]
    decide
  obtain ⟨rows, hrows, hshown⟩ := ((hscan [48] 0 hstart).2 7 5 none).2 hmemory
    hnone (by
      intro i hi
      rw [h.read_eq, (h.findIn _ _).1]
      exact shown_windowRecords hvalue _)
  have hinjective : Function.Injective fun row : Record =>
      (.ok (some row) : Except StoreError (Option Record)) := by
    rintro row row' ⟨⟩
    rfl
  have hfound : rows = [[⟨[2], value⟩], [⟨[2], [3]⟩], [⟨[2], value⟩]] := by
    apply List.map_injective_iff.2 hinjective
    rw [hshown, live_windowRecords hspace hlimit]
    simp only [List.take, List.map, keys_windowSpace hspace,
      value?_windowRecords]
    rfl
  rw [hfound] at hrows
  exact ⟨hrows, hnone, hbefore, hafter⟩

def tirelessSettings : Settings where
  cacheSizeMb := 1
  poolCount := 2
  readRouting := .key
  scan := { stem := "", width := 1, lookupLimit := 18446744073709551615 }
  fieldCount := 1

/-- The longest scan shows nothing of a record that is there to be read. -/
theorem longest_scan_shows_nothing :
    ∃ store, create tirelessSettings = .ok store ∧
      tirelessSettings.readRouting = .key ∧
      let reached := (store.run [.write [49] [⟨[2], [3]⟩]]).1
      let records := (store.run [.write [49] [⟨[2], [3]⟩]]).2
      let scanner := reached.scanner
      let scanned := reached.scan 7 [48] 18446744073709551615 none
      scanner.idOf [48] = .ok 0 ∧
        live scanner.space records (scanner.window 0 scanner.lookupLimit) =
          [1] ∧
        (reached.read 7 [49] none).1 = .ok (some [⟨[2], [3]⟩]) ∧
        scanned.2.nvmEvictions = reached.nvmEvictions ∧
        scanned.1 = .error .cutShort := by
  obtain ⟨store, hcreate⟩ : ∃ store, create tirelessSettings = .ok store :=
    ⟨_, rfl⟩
  have hfresh := fresh_create hcreate
  have hample : store.Ample [[49]] 1000 := hfresh.ample (by decide)
  obtain ⟨hafter, hrecords⟩ := run_writes hcreate hample
    [([49], [⟨[2], [3]⟩])] (by decide) (by
      intro key record hmem
      cases List.mem_singleton.1 hmem
      refine ⟨?_, by decide, List.mem_cons_self, by decide⟩
      intro field hfield
      cases List.mem_singleton.1 hfield
      exact ⟨by decide, by decide⟩)
  simp only [List.map_singleton, List.reverse_singleton] at hafter hrecords
  obtain ⟨ledgers, h⟩ := serves_run hcreate rfl [.write [49] [⟨[2], [3]⟩]]
  obtain ⟨hscanner, -⟩ := settled_run store [.write [49] [⟨[2], [3]⟩]]
  refine ⟨store, hcreate, rfl, ?_⟩
  simp only [hrecords] at h ⊢
  generalize (store.run [.write [49] [⟨[2], [3]⟩]]).1 = reached at *
  have hspace : reached.scanner.space = ⟨[], 1⟩ := by
    rw [hscanner, hfresh.space]
    rfl
  have hlimit : reached.scanner.lookupLimit = 18446744073709551615 := by
    rw [hscanner, hfresh.lookups]
    rfl
  have hstart : reached.scanner.idOf [48] = .ok 0 := by
    rw [Scanner.idOf, hspace]
    decide
  have hmemory : ¬reached.scanner.hasMemory Memory.listSize
      18446744073709551615 = true := by
    rw [Scanner.hasMemory, hlimit]
    decide
  refine ⟨hstart, ?_, ?_, (hafter.scan ..).2, ?_⟩
  · have hwindow : reached.scanner.window 0 reached.scanner.lookupLimit =
        [0, 1, 2, 3, 4, 5, 6, 7, 8, 9] := by
      rw [Scanner.window, Scanner.idBound, hspace, hlimit]
      decide
    rw [hwindow, hspace]
    cbv
  · rw [h.read_eq, (h.findIn [49] none).1]
    rfl
  · rw [h.scan_eq, Scanner.scan_of_no_memory hstart hmemory]

end Store

end TieredCache
