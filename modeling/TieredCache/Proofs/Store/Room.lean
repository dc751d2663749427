import Mathlib
import TieredCache.Proofs.Store.Writes

/-!
# Stores with room for everything

Where either tier of every pool could take all items that there are ever going
to be, an engine drops none of them, however they move between the tiers.  So
records that fit are all there once they are written.
-/

namespace TieredCache.Store

variable {store : Store} {settings : Settings} {keys : List Bytes}
  {size : Nat}

/-- Items have some of the keys and are of bounded size, and a tier of every pool
has room for that many of that size. -/
structure Ample (store : Store) (keys : List Bytes) (size : Nat) : Prop where
  items : ∃ ledgers, store.engine.Keeps ledgers ∧
    ∀ shard key row, (key, row) ∈ ledgers shard →
      key ∈ keys ∧ entrySize key row ≤ size
  rooms : ∀ shard room, store.engine.room? shard = some room →
    keys.length * size ≤ max room.1 room.2

theorem Fresh.ample (h : store.Fresh settings)
    (hroom : keys.length * size ≤ poolBytes settings) :
    store.Ample keys size := by
  refine ⟨⟨_, h.keeps, by simp⟩, ?_⟩
  intro shard room hshard
  rw [h.sharded.rooms shard room hshard]
  exact le_max_of_le_left hroom

/-! ## One operation -/

theorem Ample.perform (h : store.Ample keys size) {call : ItemCall}
    (hpermits : store.engine.Permits call)
    (hinstall : ∀ handle, call = .install handle →
      handle.key ∈ keys ∧ entrySize handle.key handle.memory ≤ size) :
    Ample { store with engine := store.engine.perform call } keys size ∧
      store.engine.dropped call = [] := by
  obtain ⟨ledgers, hkeeps, hitems⟩ := h.items
  have hentered : ∀ key row,
      (key, row) ∈ call.enter (ledgers call.pool) →
        key ∈ keys ∧ entrySize key row ≤ size := by
    intro key row hrow
    cases call with
    | install handle =>
        rcases List.mem_cons.1 hrow with heq | hold
        · cases heq
          exact hinstall handle rfl
        · exact hitems _ key row (Ledger.mem_erase.1 hold).1
    | find id found => exact hitems _ key row hrow
    | remove id gone => exact hitems _ key row (Ledger.mem_erase.1 hrow).1
  have hnext := hkeeps.perform hpermits
  have hdropped : store.engine.dropped call = [] := by
    refine hkeeps.dropped_eq_nil hpermits fun room hroom => ?_
    refine le_trans ?_ (h.rooms call.pool room hroom)
    cases hpool : store.engine.pools[call.pool]? with
    | none => simp [Engine.room?, hpool] at hroom
    | some pool =>
        refine Ledger.size_le_mul ?_ hentered
        have hnodup := (hkeeps.pools call.pool pool hpool).nodup
        cases call with
        | install handle => exact Ledger.nodup_set hnodup
        | find id found => exact hnodup
        | remove id gone => exact Ledger.nodup_erase hnodup
  refine ⟨⟨⟨_, hnext, ?_⟩, ?_⟩, hdropped⟩
  · intro shard key row hrow
    rw [Engine.revise, hdropped, Ledger.eraseAll_nil] at hrow
    by_cases hshard : shard = call.pool
    · rw [hshard, Function.update_self] at hrow
      exact hentered key row hrow
    · rw [Function.update_of_ne hshard] at hrow
      exact hitems shard key row hrow
  · intro shard room hroom
    simp only [hkeeps.room?_perform hpermits] at hroom
    exact h.rooms shard room hroom

theorem nvmEvictions_findIn (store : Store) (shard : Nat) (key : Bytes)
    (names : Option (List Bytes)) :
    (store.findIn shard key names).2.nvmEvictions =
      store.nvmEvictions +
        (store.engine.dropped (.find shard key)).length := by
  rw [findIn_snd]
  exact Engine.nvmEvictions_perform store.engine (.find shard key)

theorem Ample.findIn (h : store.Ample keys size) (shard : Nat) (key : Bytes)
    (names : Option (List Bytes)) :
    (store.findIn shard key names).2.Ample keys size ∧
      (store.findIn shard key names).2.nvmEvictions = store.nvmEvictions := by
  have hpermits : store.engine.Permits (.find shard key) := trivial
  obtain ⟨hnext, hdropped⟩ := h.perform hpermits nofun
  constructor
  · rw [findIn_snd]
    exact hnext
  · rw [nvmEvictions_findIn, hdropped]
    rfl

theorem Ample.write (h : store.Ample keys size) {key : Bytes} {record : Record}
    (hkey : key ∈ keys) (hsize : entrySize key (Row.rowBytes record) ≤ size) :
    (store.write key record).2.Ample keys size ∧
      (store.write key record).2.nvmEvictions = store.nvmEvictions ∧
      ((store.write key record).1 = .ok () →
        store.droppedByWrite key record = []) := by
  rcases write_cases store key record with
    ⟨e, hrefused⟩ | ⟨row, hencode, hadmits, hwrite⟩
  · rw [hrefused]
    exact ⟨h, rfl, nofun⟩
  · obtain ⟨-, rfl⟩ := Row.encode_eq_ok_iff.1 hencode
    have hpermits : store.engine.Permits (.install
        ⟨store.routing.shardOfKey key, key, Row.rowBytes record⟩) := hadmits
    obtain ⟨hnext, hdropped⟩ := h.perform hpermits (by
      rintro handle ⟨⟩
      exact ⟨hkey, hsize⟩)
    have hcounted := Engine.nvmEvictions_perform store.engine (.install
      ⟨store.routing.shardOfKey key, key, Row.rowBytes record⟩)
    rw [hdropped] at hcounted
    rw [hwrite]
    refine ⟨hnext, hcounted, fun _ => ?_⟩
    simp only [droppedByWrite, hencode]
    exact hdropped

theorem Ample.delete (h : store.Ample keys size) (key : Bytes) :
    (store.delete key).2.Ample keys size ∧
      (store.delete key).2.nvmEvictions = store.nvmEvictions := by
  have hpermits : store.engine.Permits
      (.remove (store.routing.shardOfKey key) key) := trivial
  obtain ⟨hnext, hdropped⟩ := h.perform hpermits nofun
  have hcounted := Engine.nvmEvictions_perform store.engine
    (.remove (store.routing.shardOfKey key) key)
  rw [hdropped] at hcounted
  rw [delete_eq store key rfl]
  exact ⟨hnext, hcounted⟩

theorem Ample.scan (h : store.Ample keys size) (worker : Nat) (start : Bytes)
    (count : Nat) (names : Option (List Bytes)) :
    (store.scan worker start count names).2.Ample keys size ∧
      (store.scan worker start count names).2.nvmEvictions =
        store.nvmEvictions := by
  unfold Store.scan
  cases store.readShard worker with
  | error e => exact ⟨h, rfl⟩
  | ok shardOf =>
      have hlookup : ∀ (next : Store) key,
          (next.Ample keys size ∧ next.nvmEvictions = store.nvmEvictions) →
          (next.findIn (shardOf key) key names).2.Ample keys size ∧
            (next.findIn (shardOf key) key names).2.nvmEvictions =
              store.nvmEvictions := by
        rintro next key ⟨hnext, hcount⟩
        obtain ⟨hafter, hsame⟩ := hnext.findIn (shardOf key) key names
        exact ⟨hafter, hsame.trans hcount⟩
      exact Scanner.scan_keeps hlookup store.scanner Memory.listSize start
        count ⟨h, rfl⟩

theorem Ample.register (h : store.Ample keys size) (worker : Nat) :
    (store.register worker).2.Ample keys size ∧
      (store.register worker).2.nvmEvictions = store.nvmEvictions := by
  unfold Store.register
  cases store.routing.register worker
      (worker % store.routing.shardCount) with
  | error e => exact ⟨h, rfl⟩
  | ok registered => exact ⟨⟨h.items, h.rooms⟩, rfl⟩

theorem Ample.answer (h : store.Ample keys size) (call : StoreCall)
    (hwrites : ∀ key record, call = .write key record →
      key ∈ keys ∧ entrySize key (Row.rowBytes record) ≤ size) :
    (store.answer call).2.Ample keys size ∧
      (store.answer call).2.nvmEvictions = store.nvmEvictions := by
  cases call with
  | write key record =>
      obtain ⟨hkey, hsize⟩ := hwrites key record rfl
      obtain ⟨hnext, hcount, -⟩ := h.write hkey hsize
      exact ⟨hnext, hcount⟩
  | delete key => exact h.delete key
  | read worker key names =>
      simp only [Store.answer, Store.read]
      cases store.readShard worker with
      | error e => exact ⟨h, rfl⟩
      | ok shardOf => exact h.findIn (shardOf key) key names
  | scan worker start count names => exact h.scan worker start count names
  | register worker => exact h.register worker

/-! ## Records written one after another -/

theorem Ample.step_write {state : Store × Ledger Record}
    (h : state.1.Ample keys size) {key : Bytes} {record : Record}
    (hkey : key ∈ keys) (hsize : entrySize key (Row.rowBytes record) ≤ size)
    (hwritten : (state.1.write key record).1 = .ok ()) :
    (step state (.write key record)).1.Ample keys size ∧
      (step state (.write key record)).2 = state.2.set key record := by
  obtain ⟨hnext, -, hdropped⟩ := h.write hkey hsize
  rw [Store.step_write hwritten, hdropped hwritten, Ledger.eraseAll_nil]
  exact ⟨hnext, rfl⟩

theorem run_writes (hcreate : create settings = .ok store)
    (hample : store.Ample keys size) (records : Ledger Record)
    (hkeys : records.keys.Nodup)
    (hfits : ∀ key record, (key, record) ∈ records →
      (∀ field ∈ record, Row.FieldFits field) ∧
        Fits (poolBytes settings) key record ∧
        key ∈ keys ∧ entrySize key (Row.rowBytes record) ≤ size) :
    let reached := store.run (records.map fun pair => .write pair.1 pair.2)
    reached.1.Ample keys size ∧ reached.2 = records.reverse := by
  induction records using List.reverseRecOn with
  | nil => exact ⟨hample, rfl⟩
  | append_singleton records pair ih =>
      obtain ⟨key, record⟩ := pair
      rw [Ledger.keys_append] at hkeys
      obtain ⟨hstocked, hrecords⟩ := ih hkeys.of_append_left
        fun key record hpair =>
          hfits key record (List.mem_append_left _ hpair)
      obtain ⟨hfields, hroom, hkey, hsize⟩ :=
        hfits key record (List.mem_append_right _ List.mem_cons_self)
      have hsharded := sharded_run hcreate
        (records.map fun pair => .write pair.1 pair.2)
      have hnew : key ∉ Ledger.keys records.reverse := by
        intro hmem
        have hold : key ∈ Ledger.keys records := by
          simpa [Ledger.keys] using hmem
        exact List.disjoint_of_nodup_append hkeys hold List.mem_cons_self
      have hwritten : ((store.run (records.map fun pair =>
          .write pair.1 pair.2)).1.write key record).1 = .ok () := by
        rw [hsharded.write_fst, refusal?_eq_none_iff.2 ⟨hfields, hroom⟩]
      obtain ⟨hnext, hset⟩ := hstocked.step_write hkey hsize hwritten
      simp only [List.map_append, List.map_cons, List.map_nil, run_concat]
      refine ⟨hnext, hset.trans ?_⟩
      rw [hrecords, Ledger.set, Ledger.erase_of_notMem hnew,
        List.reverse_append]
      rfl

end TieredCache.Store
