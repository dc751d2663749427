import Mathlib
import TieredCache.Proofs.Engine.Tiers
import TieredCache.Proofs.Store.Fresh

/-!
# Keys in their shards

Whatever calls a store serves, each pool has keys of its own shard only: a
lookup in another shard finds nothing there to move.  Shards, rooms and the
bindings of workers stay as they are.
-/

namespace TieredCache

inductive StoreReply where
  | written (outcome : Except StoreError Unit)
  | deleted (outcome : Except StoreError Bool)
  | read (outcome : Except StoreError (Option Record))
  | scanned (outcome : Except Halt (List Record))
  | registered (outcome : Except StoreError Nat)

namespace Routing

variable {routing next : Routing} {worker shard number : Nat}

theorem shardOfWorker_eq_ok_iff :
    routing.shardOfWorker worker = .ok shard ↔
      routing.bindings[worker]? = some shard := by
  unfold shardOfWorker
  cases routing.bindings[worker]? <;> simp

theorem lawful_register (h : routing.Lawful)
    (hregister : routing.register worker shard = .ok (number, next)) :
    next.Lawful ∧ routing.Extends next := by
  have hbounds : worker < routing.workerLimit ∧ shard < routing.shardCount := by
    unfold register at hregister
    split at hregister
    · cases hregister
    · split at hregister
      · cases hregister
      · omega
  obtain ⟨_, _, hok, hlawful, hextends, -⟩ :=
    register_ok h hbounds.1 hbounds.2
  rw [hregister] at hok
  cases hok
  exact ⟨hlawful, hextends⟩

theorem shardOfWorker_register
    (hregister : routing.register worker shard = .ok (number, next))
    {other bound : Nat} (hother : routing.shardOfWorker other = .ok bound) :
    next.shardOfWorker other = .ok bound := by
  rw [shardOfWorker_eq_ok_iff] at hother ⊢
  unfold register at hregister
  split at hregister
  · cases hregister
  · split at hregister
    · cases hregister
    · split at hregister
      · cases hregister
        exact hother
      · rename_i hunbound
        cases hregister
        have hne : worker ≠ other := by
          rintro rfl
          simp [hunbound] at hother
        simp [Std.HashMap.getElem?_insert, hne, hother]

end Routing

namespace Store

variable {store : Store} {settings : Settings} {pool : Pool}
  {key value : Bytes} {worker shard : Nat}

/-! ## Calls -/

def answer (store : Store) : StoreCall → StoreReply × Store
  | .write key record =>
      let (outcome, next) := store.write key record
      (.written outcome, next)
  | .delete key =>
      let (outcome, next) := store.delete key
      (.deleted outcome, next)
  | .read worker key names =>
      let (outcome, next) := store.read worker key names
      (.read outcome, next)
  | .scan worker start count names =>
      let (outcome, next) := store.scan worker start count names
      (.scanned outcome, next)
  | .register worker =>
      let (outcome, next) := store.register worker
      (.registered outcome, next)

theorem step_fst (state : Store × Ledger Record) (call : StoreCall) :
    (step state call).1 = (state.1.answer call).2 := by
  cases call with
  | write key record =>
      rcases hwrite : state.1.write key record with ⟨e | _, next⟩
      · simp only [step, answer, hwrite]
      · simp only [step, answer, hwrite]
  | delete key => rfl
  | read worker key names => rfl
  | scan worker start count names => rfl
  | register worker => rfl

theorem run_concat_fst (store : Store) (calls : List StoreCall)
    (call : StoreCall) :
    (store.run (calls ++ [call])).1 = ((store.run calls).1.answer call).2 := by
  rw [run_concat, step_fst]

theorem answer_snd (store : Store) (call : StoreCall) :
    ∃ engine routing, (store.answer call).2 = { store with engine, routing } ∧
      ((∀ worker, call ≠ .register worker) → routing = store.routing) := by
  cases call with
  | write key record =>
      rcases write_cases store key record with
        ⟨e, hrefused⟩ | ⟨row, -, -, hwrite⟩
      · exact ⟨_, _, congrArg Prod.snd hrefused, fun _ => rfl⟩
      · exact ⟨_, _, congrArg Prod.snd hwrite, fun _ => rfl⟩
  | delete key => exact ⟨_, _, rfl, fun _ => rfl⟩
  | read worker key names =>
      simp only [answer, read]
      cases store.readShard worker with
      | error e => exact ⟨_, _, rfl, fun _ => rfl⟩
      | ok shardOf =>
          exact ⟨_, _, findIn_snd store (shardOf key) key names, fun _ => rfl⟩
  | scan worker start count names =>
      simp only [answer, scan]
      cases store.readShard worker with
      | error e => exact ⟨_, _, rfl, fun _ => rfl⟩
      | ok shardOf =>
          have hlookup : ∀ (next : Store) key,
              (∃ engine, next = { store with engine }) →
              ∃ engine, (next.findIn (shardOf key) key names).2 =
                { store with engine } := by
            rintro _ key ⟨engine, rfl⟩
            exact ⟨_, findIn_snd _ (shardOf key) key names⟩
          obtain ⟨engine, hengine⟩ :=
            Scanner.scan_keeps hlookup store.scanner Memory.listSize start count
              ⟨_, rfl⟩
          exact ⟨engine, _, hengine, fun _ => rfl⟩
  | register worker =>
      simp only [answer, register]
      cases store.routing.register worker
          (worker % store.routing.shardCount) with
      | error e => exact ⟨_, _, rfl, fun _ => rfl⟩
      | ok registered =>
          exact ⟨_, registered.2, rfl, fun hcall => absurd rfl (hcall worker)⟩

theorem shardOfWorker_answer
    (hworker : store.routing.shardOfWorker worker = .ok shard)
    (call : StoreCall) :
    (store.answer call).2.routing.shardOfWorker worker = .ok shard := by
  by_cases hcall : ∃ other, call = .register other
  · obtain ⟨other, rfl⟩ := hcall
    simp only [answer, register]
    cases hregister : store.routing.register other
        (other % store.routing.shardCount) with
    | error e => exact hworker
    | ok registered => exact Routing.shardOfWorker_register hregister hworker
  · obtain ⟨engine, routing, hanswer, hrouting⟩ := answer_snd store call
    rw [hanswer, hrouting (not_exists.1 hcall)]
    exact hworker

/-! ## What every call keeps -/

/-- The pools are as the settings ask for them, and have the keys of their
shards. -/
structure Sharded (store : Store) (settings : Settings) : Prop where
  keys : ∃ ledgers, store.engine.Keeps ledgers ∧ Places store.routing ledgers
  pools : store.engine.pools.size = store.routing.shardCount
  shards : store.routing.shardCount = settings.poolCount.toNat
  rooms : ∀ shard room, store.engine.room? shard = some room →
    room.1 = poolBytes settings
  lawful : store.routing.Lawful
  readRouting : store.readRouting = settings.readRouting

theorem Fresh.sharded (h : store.Fresh settings) : store.Sharded settings := by
  have hplaces : Places store.routing fun _ => [] := by
    simp [Places, Ledger.keys]
  refine ⟨⟨_, h.keeps, hplaces⟩, h.pools, h.shards, ?_, h.lawful,
    h.readRouting⟩
  intro shard room hroom
  have hshard : shard < store.routing.shardCount := by
    by_contra hout
    rw [Engine.room?_eq_none_iff.2 (by rw [h.pools]; omega)] at hroom
    cases hroom
  obtain ⟨below, hbelow⟩ := h.rooms shard hshard
  rw [hbelow] at hroom
  cases hroom
  rfl

theorem Sharded.perform (h : store.Sharded settings) {call : ItemCall}
    (hpermits : store.engine.Permits call)
    (hrouted : ∀ handle, call = .install handle →
      store.routing.shardOfKey handle.key = handle.pool) :
    Sharded { store with engine := store.engine.perform call } settings := by
  obtain ⟨ledgers, hkeeps, hplaces⟩ := h.keys
  have hkeys : ∀ key ∈ (call.enter (ledgers call.pool)).keys,
      store.routing.shardOfKey key = call.pool := by
    intro key hkey
    cases call with
    | install handle =>
        rcases Ledger.mem_keys_set.1 hkey with rfl | hold
        · exact hrouted handle rfl
        · exact hplaces handle.pool key hold
    | find id found => exact hplaces id key hkey
    | remove id gone => exact hplaces id key (Ledger.mem_keys_erase.1 hkey).1
  have hsize := Engine.size_pools_perform store.engine call
  have hrooms := hkeeps.room?_perform hpermits
  exact
    { h with
      keys := ⟨_, hkeeps.perform hpermits, places_revise hplaces hkeys⟩
      pools := hsize.trans h.pools
      rooms := fun shard room hroom =>
        h.rooms shard room ((hrooms shard).symm.trans hroom) }

theorem Sharded.findIn (h : store.Sharded settings) (shard : Nat) (key : Bytes)
    (names : Option (List Bytes)) :
    (store.findIn shard key names).2.Sharded settings := by
  rw [findIn_snd]
  exact h.perform trivial nofun

theorem Sharded.write (h : store.Sharded settings) (key : Bytes)
    (record : Record) : (store.write key record).2.Sharded settings := by
  rcases write_cases store key record with
    ⟨e, hrefused⟩ | ⟨row, -, hadmits, hwrite⟩
  · rw [hrefused]
    exact h
  · have hpermits : store.engine.Permits
        (.install ⟨store.routing.shardOfKey key, key, row⟩) := hadmits
    rw [hwrite]
    apply h.perform hpermits
    rintro handle ⟨⟩
    rfl

theorem Sharded.register (h : store.Sharded settings) (worker : Nat) :
    (store.register worker).2.Sharded settings := by
  unfold Store.register
  cases hregister : store.routing.register worker
      (worker % store.routing.shardCount) with
  | error e => exact h
  | ok registered =>
      obtain ⟨hlawful, hextends⟩ := Routing.lawful_register h.lawful hregister
      obtain ⟨ledgers, hkeeps, hplaces⟩ := h.keys
      refine ⟨⟨ledgers, hkeeps, ?_⟩, h.pools.trans hextends.shardCount.symm,
        hextends.shardCount.trans h.shards, h.rooms, hlawful, h.readRouting⟩
      intro shard key hkey
      rw [hextends.shardOfKey]
      exact hplaces shard key hkey

theorem Sharded.answer (h : store.Sharded settings) (call : StoreCall) :
    (store.answer call).2.Sharded settings := by
  cases call with
  | write key record => exact h.write key record
  | delete key =>
      simp only [Store.answer, delete_eq store key rfl]
      exact h.perform trivial nofun
  | read worker key names =>
      simp only [Store.answer, Store.read]
      cases store.readShard worker with
      | error e => exact h
      | ok shardOf => exact h.findIn (shardOf key) key names
  | scan worker start count names =>
      simp only [Store.answer, Store.scan]
      cases store.readShard worker with
      | error e => exact h
      | ok shardOf =>
          have hlookup : ∀ (next : Store) key, next.Sharded settings →
              (next.findIn (shardOf key) key names).2.Sharded settings :=
            fun next key hnext => hnext.findIn (shardOf key) key names
          exact Scanner.scan_keeps hlookup store.scanner Memory.listSize start
            count h
  | register worker => exact h.register worker

theorem sharded_run (hcreate : create settings = .ok store)
    (calls : List StoreCall) : (store.run calls).1.Sharded settings := by
  induction calls using List.reverseRecOn with
  | nil => exact (fresh_create hcreate).sharded
  | append_singleton calls call ih =>
      rw [run_concat_fst]
      exact ih.answer call

theorem settled_run (store : Store) (calls : List StoreCall) :
    (store.run calls).1.scanner = store.scanner ∧
      (store.run calls).1.fieldCount = store.fieldCount ∧
      (store.run calls).1.readRouting = store.readRouting := by
  induction calls using List.reverseRecOn with
  | nil => exact ⟨rfl, rfl, rfl⟩
  | append_singleton calls call ih =>
      obtain ⟨engine, routing, hanswer, -⟩ :=
        answer_snd (store.run calls).1 call
      rw [run_concat_fst, hanswer]
      exact ih

theorem Sharded.shardOfKey_of_stores (h : store.Sharded settings)
    (hpool : store.engine.pools[shard]? = some pool)
    (hstores : pool.Stores key value) :
    store.routing.shardOfKey key = shard ∧
      shard < settings.poolCount.toNat := by
  obtain ⟨ledgers, hkeeps, hplaces⟩ := h.keys
  obtain ⟨order, hholds, hperm⟩ := hkeeps.pools shard pool hpool
  have hlisted : (key, value) ∈ ledgers shard :=
    hperm.mem_iff.1 (hholds.stores_iff.1 hstores)
  have hshard : store.routing.shardOfKey key = shard :=
    hplaces shard key (Ledger.mem_keys.2 ⟨value, hlisted⟩)
  have hlt := store.routing.shardOfKey_lt key
  rw [hshard, h.shards] at hlt
  exact ⟨hshard, hlt⟩

end Store

end TieredCache
