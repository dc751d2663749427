import Mathlib
import TieredCache.Proofs.Store.Records

/-!
# A store is one map

With reads that go to the shards of keys, a store answers all workers as one map
from keys to records does.  The map changes with writes and removals, and loses
the keys that the engine drops while it serves any call.
-/

namespace TieredCache

/-- What workers ask of a store.  Inserts and updates are both writes. -/
inductive StoreCall where
  | write (key : Bytes) (record : Record)
  | delete (key : Bytes)
  | read (worker : Nat) (key : Bytes) (names : Option (List Bytes))
  | scan (worker : Nat) (start : Bytes) (count : Nat)
      (names : Option (List Bytes))
  | register (worker : Nat)
  deriving DecidableEq, Repr

namespace Store

variable {store : Store} {ledgers : Nat → Ledger Bytes}
  {records : Ledger Record} {fieldCount : Nat} {key : Bytes}

/-- Shows a record of the map, and strikes what the store drops on the same
lookup. -/
def lookUp (names : Option (List Bytes)) (state : Store × Ledger Record)
    (key : Bytes) :
    Except StoreError (Option Record) × (Store × Ledger Record) :=
  (shown state.1.fieldCount names (state.2.value? key),
    ((state.1.findIn (state.1.routing.shardOfKey key) key names).2,
      state.2.eraseAll (state.1.droppedByFind key)))

/-- Performs a call on the store, and keeps the map in step with it. -/
def step (state : Store × Ledger Record) : StoreCall → Store × Ledger Record
  | .write key record =>
      match state.1.write key record with
      | (.ok _, next) =>
          (next, (state.2.set key record).eraseAll
            (state.1.droppedByWrite key record))
      | (.error _, next) => (next, state.2)
  | .delete key => ((state.1.delete key).2, state.2.erase key)
  | .read worker key names =>
      ((state.1.read worker key names).2,
        state.2.eraseAll (state.1.droppedByFind key))
  | .scan worker start count names =>
      ((state.1.scan worker start count names).2,
        (state.1.scanner.scan (lookUp names) Memory.listSize start count
          state).2.2)
  | .register worker => ((state.1.register worker).2, state.2)

def run (store : Store) (calls : List StoreCall) : Store × Ledger Record :=
  calls.foldl step (store, [])

theorem run_concat (store : Store) (calls : List StoreCall)
    (call : StoreCall) :
    store.run (calls ++ [call]) = step (store.run calls) call := by
  simp [run]

/-! ## Setting up -/

theorem addPools_spec {bytes first count : Nat} {engine next : Engine}
    (h : addPools bytes first count engine = .ok next)
    (hkeeps : engine.Keeps fun _ => []) :
    (next.Keeps fun _ => []) ∧
      next.pools.size = engine.pools.size + count ∧
      next.counters = engine.counters := by
  induction count generalizing first engine with
  | zero =>
      cases h
      exact ⟨hkeeps, rfl, rfl⟩
  | succ count ih =>
      unfold addPools at h
      split at h
      · cases h
      · rename_i number grown hadd
        obtain ⟨hgrown, -, hsize, -⟩ := hkeeps.addPool hadd
        obtain ⟨-, -, hcounters⟩ := Engine.addPool_eq hadd
        obtain ⟨hnext, hsizes, hcounted⟩ := ih h hgrown
        exact ⟨hnext, by omega, hcounted.trans hcounters⟩

theorem createEngine_spec {ramBytes shardCount : Nat} {hierarchy : Hierarchy}
    {engine : Engine}
    (h : createEngine ramBytes shardCount hierarchy = .ok engine) :
    (engine.Keeps fun _ => []) ∧ engine.pools.size = shardCount ∧
      engine.counters = {} := by
  unfold createEngine at h
  split at h
  · cases h
  · rename_i fresh hcreate
    have hfresh := Engine.keeps_create hcreate
    have hnone : fresh.pools.size = 0 ∧ fresh.counters = {} := by
      rw [Engine.create_eq hcreate]
      exact ⟨rfl, rfl⟩
    simp only at h
    split at h
    · cases h
    · split at h
      · cases h
      · rename_i next hadd
        cases h
        obtain ⟨hkeeps, hsize, hcounters⟩ := addPools_spec hadd hfresh
        exact ⟨hkeeps, by omega, hcounters.trans hnone.2⟩

theorem serves_create {settings : Settings}
    (h : create settings = .ok store) (hrouting : settings.readRouting = .key) :
    store.Serves settings.fieldCount.toNat (fun _ => []) [] := by
  unfold create at h
  split at h
  · cases h
  · split at h
    · cases h
    · split at h
      · cases h
      · split at h
        · cases h
        · split at h
          · cases h
          · rename_i engine hengine
            cases h
            obtain ⟨hkeeps, hsize, -⟩ := createEngine_spec hengine
            refine ⟨hkeeps, hsize, rfl, hrouting, ?_, ?_, ?_⟩
            · intro shard key hkey
              simp [Ledger.keys] at hkey
            · intro key
              rfl
            · intro key record hvalue
              simp [Ledger.value?] at hvalue

/-! ## Calls -/

theorem Serves.read_eq (h : store.Serves fieldCount ledgers records)
    (worker : Nat) (key : Bytes) (names : Option (List Bytes)) :
    store.read worker key names =
      store.findIn (store.routing.shardOfKey key) key names := by
  simp [Store.read, readShard, h.routing]

theorem Serves.scan_eq (h : store.Serves fieldCount ledgers records)
    (worker : Nat) (start : Bytes) (count : Nat)
    (names : Option (List Bytes)) :
    store.scan worker start count names =
      store.scanner.scan
        (fun next key =>
          Store.findIn next (store.routing.shardOfKey key) key names)
        Memory.listSize start count store := by
  simp [Store.scan, readShard, h.routing]

def InStep (fieldCount : Nat) (routing : Routing) (store : Store)
    (state : Store × Ledger Record) : Prop :=
  store = state.1 ∧ store.routing = routing ∧
    ∃ ledgers, store.Serves fieldCount ledgers state.2

theorem routing_findIn (store : Store) (shard : Nat) (key : Bytes)
    (names : Option (List Bytes)) :
    (store.findIn shard key names).2.routing = store.routing := by
  rw [findIn_snd]

theorem agree_lookUp (fieldCount : Nat) (routing : Routing)
    (names : Option (List Bytes)) :
    Scanner.Agree
      (fun next key => findIn next (routing.shardOfKey key) key names)
      (lookUp names) (InStep fieldCount routing) := by
  rintro store ⟨same, records⟩ key ⟨hsame, hrouting, ledgers, h⟩
  simp only at hsame h
  subst hsame
  subst hrouting
  obtain ⟨hfound, hnext⟩ := h.findIn key names
  refine ⟨?_, rfl, routing_findIn _ _ _ _, hnext⟩
  rw [hfound, lookUp, h.fields]

theorem Serves.scan (h : store.Serves fieldCount ledgers records)
    (worker : Nat) (start : Bytes) (count : Nat)
    (names : Option (List Bytes)) :
    (store.scan worker start count names).1 =
        (store.scanner.scan (lookUp names) Memory.listSize start count
          (store, records)).1 ∧
      ∃ ledgers', (store.scan worker start count names).2.Serves fieldCount
        ledgers'
        (store.scanner.scan (lookUp names) Memory.listSize start count
          (store, records)).2.2 := by
  have hstate : InStep fieldCount store.routing store (store, records) :=
    ⟨rfl, rfl, ledgers, h⟩
  rw [h.scan_eq]
  obtain ⟨hrows, -, -, hserves⟩ :=
    (agree_lookUp fieldCount store.routing names).scan store.scanner
      Memory.listSize start count hstate
  exact ⟨hrows, hserves⟩

theorem shardCount_register {routing bound : Routing}
    {worker shard number : Nat}
    (h : routing.register worker shard = .ok (number, bound)) :
    bound.shardCount = routing.shardCount := by
  unfold Routing.register at h
  split at h
  · cases h
  · split at h
    · cases h
    · split at h
      · cases h
        rfl
      · cases h
        rfl

theorem Serves.register (h : store.Serves fieldCount ledgers records)
    (worker : Nat) :
    (store.register worker).2.Serves fieldCount ledgers records := by
  unfold Store.register
  cases hregister : store.routing.register worker
      (worker % store.routing.shardCount) with
  | error e => exact h
  | ok registered =>
      obtain ⟨number, bound⟩ := registered
      have hcount := shardCount_register hregister
      have hshard : ∀ key,
          bound.shardOfKey key = store.routing.shardOfKey key := by
        intro key
        unfold Routing.shardOfKey
        rw [hcount]
      refine ⟨h.keeps, h.pools.trans hcount.symm, h.fields, h.routing, ?_, ?_,
        h.fit⟩
      · intro shard key hkey
        simp only [hshard]
        exact h.sharded shard key hkey
      · intro key
        simp only [hshard]
        exact h.rows key

theorem step_write {state : Store × Ledger Record} {record : Record}
    (h : (state.1.write key record).1 = .ok ()) :
    step state (.write key record) =
      ((state.1.write key record).2,
        (state.2.set key record).eraseAll
          (state.1.droppedByWrite key record)) := by
  rcases hwrite : state.1.write key record with ⟨outcome, next⟩
  rw [hwrite] at h
  simp only at h
  subst h
  simp only [step, hwrite]

theorem serves_step {state : Store × Ledger Record}
    (h : state.1.Serves fieldCount ledgers state.2) (call : StoreCall) :
    ∃ ledgers', (step state call).1.Serves fieldCount ledgers'
      (step state call).2 := by
  cases call with
  | write key record =>
      rcases h.write key record with ⟨e, hwrite⟩ | ⟨hok, -, hnext⟩
      · simp only [step, hwrite]
        exact ⟨ledgers, h⟩
      · rw [step_write hok]
        exact hnext
  | delete key => exact (h.delete key).2
  | read worker key names =>
      simp only [step, h.read_eq]
      exact (h.findIn key names).2
  | scan worker start count names => exact (h.scan worker start count names).2
  | register worker => exact ⟨ledgers, h.register worker⟩

theorem serves_run {settings : Settings}
    (hcreate : create settings = .ok store)
    (hrouting : settings.readRouting = .key) (calls : List StoreCall) :
    ∃ ledgers, (store.run calls).1.Serves settings.fieldCount.toNat ledgers
      (store.run calls).2 := by
  induction calls using List.reverseRecOn with
  | nil => exact ⟨_, serves_create hcreate hrouting⟩
  | append_singleton calls call ih =>
      rw [run_concat]
      obtain ⟨ledgers, h⟩ := ih
      exact serves_step h call

/-! ## No damage -/

theorem Serves.read_ne_malformed (h : store.Serves fieldCount ledgers records)
    (worker : Nat) (key : Bytes) (names : Option (List Bytes)) (offset : Nat)
    (damage : Damage) :
    (store.read worker key names).1 ≠
      .error (.row (.malformed offset damage)) := by
  rw [h.read_eq, (h.findIn key names).1]
  exact shown_ne_malformed (fun record hrecord => h.fit key record hrecord)
    fieldCount names offset damage

theorem idOf_ne_row (scanner : Scanner) (start : Bytes) (cause : RowError) :
    scanner.idOf start ≠ .error (.row cause) := by
  unfold Scanner.idOf
  cases scanner.space.id? start <;> simp

theorem Serves.scan_ne_malformed (h : store.Serves fieldCount ledgers records)
    (worker : Nat) (start : Bytes) (count : Nat) (names : Option (List Bytes))
    (offset : Nat) (damage : Damage) :
    (store.scan worker start count names).1 ≠
      .error (.reported (.row (.malformed offset damage))) := by
  let Inv (next : Store) : Prop :=
    next.routing = store.routing ∧
      ∃ ledgers records, next.Serves fieldCount ledgers records
  have hlookup : ∀ next key, Inv next →
      (Store.findIn next (store.routing.shardOfKey key) key names).1 ≠
          .error (.row (.malformed offset damage)) ∧
        Inv (Store.findIn next (store.routing.shardOfKey key) key names).2 := by
    rintro next key ⟨hrouting, ledgers, records, hnext⟩
    rw [← hrouting]
    obtain ⟨hfound, ledgers', hafter⟩ := hnext.findIn key names
    refine ⟨?_, ?_, ledgers', _, hafter⟩
    · rw [hfound]
      exact shown_ne_malformed
        (fun record hrecord => hnext.fit key record hrecord) fieldCount names
        offset damage
    · rw [routing_findIn, hrouting]
  rw [h.scan_eq]
  exact Scanner.scan_ne_reported hlookup store.scanner Memory.listSize count
    (idOf_ne_row store.scanner start _) ⟨rfl, ledgers, records, h⟩

/-! ## The map -/

/-- After any calls a store answers from the map beside it: a lookup shows the
record of its key, a removal says whether there was one, and a scan finds what
the lookups in the map find.  Records in the map have rows, a write keeps its
own key, and nobody is told of damage. -/
theorem answers_as_one_map {settings : Settings}
    (hcreate : create settings = .ok store)
    (hrouting : settings.readRouting = .key) (calls : List StoreCall) :
    let reached := (store.run calls).1
    let records := (store.run calls).2
    (∀ worker key names,
      (reached.read worker key names).1 =
        shown settings.fieldCount.toNat names (records.value? key)) ∧
    (∀ key, (reached.delete key).1 = .ok (records.value? key).isSome) ∧
    (∀ worker start count names,
      (reached.scan worker start count names).1 =
        (reached.scanner.scan (lookUp names) Memory.listSize start count
          (reached, records)).1) ∧
    (∀ key record, records.value? key = some record →
      ∃ row, Row.encode record = .ok row) ∧
    (∀ key record, (reached.write key record).1 = .ok () →
      key ∉ reached.droppedByWrite key record) ∧
    ∀ offset damage,
      (∀ worker key names, (reached.read worker key names).1 ≠
        .error (.row (.malformed offset damage))) ∧
      ∀ worker start count names, (reached.scan worker start count names).1 ≠
        .error (.reported (.row (.malformed offset damage))) := by
  intro reached records
  obtain ⟨ledgers, h⟩ := serves_run hcreate hrouting calls
  refine ⟨?_, ?_, ?_, ?_, ?_, ?_⟩
  · intro worker key names
    rw [h.read_eq]
    exact (h.findIn key names).1
  · intro key
    exact (h.delete key).1
  · intro worker start count names
    exact (h.scan worker start count names).1
  · intro key record hvalue
    exact ⟨_, encode_of_fit (h.fit key record hvalue)⟩
  · intro key record hwritten
    rcases h.write key record with ⟨e, hrefused⟩ | ⟨-, hkept, -⟩
    · rw [hrefused] at hwritten
      contradiction
    · exact hkept
  · intro offset damage
    constructor
    · intro worker key names
      exact h.read_ne_malformed worker key names offset damage
    · intro worker start count names
      exact h.scan_ne_malformed worker start count names offset damage

def smallSettings : Settings where
  cacheSizeMb := 1
  poolCount := 2
  readRouting := .key
  fieldCount := 1

/-- A record that was written is read back by any worker, and removed. -/
theorem answers_as_one_map_smallSettings :
    ∃ store, create smallSettings = .ok store ∧
      smallSettings.readRouting = .key ∧
      let reached := (store.run [.write [1] [⟨[2], [3]⟩]]).1
      (reached.read 7 [1] none).1 = .ok (some [⟨[2], [3]⟩]) ∧
        (reached.delete [1]).1 = .ok true := by
  obtain ⟨store, hcreate, hwritten⟩ : ∃ store,
      create smallSettings = .ok store ∧
        (store.write [1] [⟨[2], [3]⟩]).1 = .ok () :=
    ⟨_, rfl, rfl⟩
  refine ⟨store, hcreate, rfl, ?_⟩
  intro reached
  obtain ⟨-, -, -, -, hkept, -⟩ := answers_as_one_map hcreate rfl []
  obtain ⟨hread, hdelete, -⟩ :=
    answers_as_one_map hcreate rfl [.write [1] [⟨[2], [3]⟩]]
  have hnotDropped : [1] ∉ store.droppedByWrite [1] [⟨[2], [3]⟩] :=
    hkept _ _ hwritten
  have hrecord : (store.run [.write [1] [⟨[2], [3]⟩]]).2.value? [1] =
      some [⟨[2], [3]⟩] := by
    have hstep : store.run [.write [1] [⟨[2], [3]⟩]] =
        step (store, []) (.write [1] [⟨[2], [3]⟩]) := rfl
    rw [hstep, step_write hwritten, Ledger.value?_eraseAll,
      if_neg hnotDropped, Ledger.value?_set, if_pos rfl]
  constructor
  · rw [hread 7 [1] none, hrecord]
    rfl
  · rw [hdelete [1], hrecord]
    rfl

end Store

end TieredCache
