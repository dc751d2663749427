import Mathlib
import TieredCache.Proofs.Engine.Isolation
import TieredCache.Proofs.Store.Affinity
import TieredCache.Proofs.Store.Lookups
import TieredCache.Proofs.Store.Writes

/-!
# What a store asks of its pools

Each call on a store comes to calls on pools, which are all that happens to its
engine.  They are for pools that the engine has, so it refuses none of them.
-/

namespace TieredCache

namespace Engine

theorem after_append (engine : Engine) (calls later : List PoolCall) :
    engine.after (calls ++ later) = (engine.after calls).after later := by
  simp [after]

theorem after_item (engine : Engine) (call : ItemCall) :
    engine.after [.item call] = engine.perform call :=
  serve_item engine call

end Engine

def failure? {ε α : Type} : Except ε α → Option ε
  | .ok _ => none
  | .error e => some e

theorem failure?_eq_some_iff {ε α : Type} {outcome : Except ε α} {e : ε} :
    failure? outcome = some e ↔ outcome = .error e := by
  cases outcome <;> simp [failure?]

def Halt.error? : Halt → Option StoreError
  | .reported e => some e
  | .cutShort => none

def StoreReply.error? : StoreReply → Option StoreError
  | .written outcome => failure? outcome
  | .deleted outcome => failure? outcome
  | .read outcome => failure? outcome
  | .scanned outcome => (failure? outcome).bind Halt.error?
  | .registered outcome => failure? outcome

namespace Store

variable {store : Store} {settings : Settings} {worker : Nat}
  {shardOf : Bytes → Nat}

def queryCall (shardOf : Bytes → Nat) (query : Query Record) : PoolCall :=
  .item (.find (shardOf query.key) query.key)

/-- The calls on pools that a call on the store comes to, in order. -/
def poolCalls (store : Store) : StoreCall → List PoolCall
  | .write key record =>
      let shard := store.routing.shardOfKey key
      match Row.encode record with
      | .error _ => []
      | .ok row =>
          .allocate shard key row.length ::
            match store.engine.allocate shard key row.length with
            | .ok (some handle) => [.item (.install (handle.write row))]
            | .ok none => []
            | .error _ => []
  | .delete key => [.item (.remove (store.routing.shardOfKey key) key)]
  | .read worker key _ =>
      match store.readShard worker with
      | .error _ => []
      | .ok shardOf => [.item (.find (shardOf key) key)]
  | .scan worker start count names =>
      match store.readShard worker with
      | .error _ => []
      | .ok shardOf =>
          let lookup (next : Store) (key : Bytes) :=
            next.findIn (shardOf key) key names
          let traced :=
            store.scanner.scan (Scanner.traced lookup) Memory.listSize start
              count (store, [])
          traced.2.2.map (queryCall shardOf)
  | .register _ => []

/-! ## What becomes of the engine -/

theorem engine_write (store : Store) (key : Bytes) (record : Record) :
    (store.write key record).2.engine =
      store.engine.after (store.poolCalls (.write key record)) := by
  simp only [write, poolCalls]
  cases Row.encode record with
  | error e => rfl
  | ok row =>
      simp only
      cases store.engine.allocate (store.routing.shardOfKey key) key
          row.length with
      | error e => rfl
      | ok granted => cases granted <;> rfl

theorem engine_scan (store : Store) (shardOf : Bytes → Nat) (start : Bytes)
    (count : Nat) (names : Option (List Bytes)) :
    let lookup (next : Store) (key : Bytes) :=
      next.findIn (shardOf key) key names
    (store.scanner.scan lookup Memory.listSize start count store).2.engine =
      store.engine.after
        ((store.scanner.scan (Scanner.traced lookup) Memory.listSize start count
          (store, [])).2.2.map (queryCall shardOf)) := by
  intro lookup
  obtain ⟨-, hlast⟩ := (Scanner.agree_traced lookup).scan store.scanner
    Memory.listSize start count
    (rfl : (store, ([] : List (Query Record))).1 = store)
  rw [← hlast]
  -- The trace so far accounts for the engine after every lookup.
  have hlookup : ∀ (state : Store × List (Query Record)) key,
      state.1.engine =
        store.engine.after (state.2.map (queryCall shardOf)) →
      (Scanner.traced lookup state key).2.1.engine =
        store.engine.after
          ((Scanner.traced lookup state key).2.2.map (queryCall shardOf)) := by
    intro state key hstate
    simp only [Scanner.traced, lookup, findIn_snd, List.map_append]
    rw [Engine.after_append, ← hstate]
    exact (Engine.after_item _ _).symm
  exact Scanner.scan_keeps hlookup store.scanner Memory.listSize start count rfl

theorem engine_answer (store : Store) (call : StoreCall) :
    (store.answer call).2.engine =
      store.engine.after (store.poolCalls call) := by
  cases call with
  | write key record => exact engine_write store key record
  | delete key =>
      simp only [answer, poolCalls, delete_eq store key rfl]
      exact (Engine.after_item _ _).symm
  | read worker key names =>
      simp only [answer, poolCalls, read]
      cases store.readShard worker with
      | error e => rfl
      | ok shardOf =>
          simp only [findIn_snd]
          exact (Engine.after_item _ _).symm
  | scan worker start count names =>
      simp only [answer, poolCalls, scan]
      cases store.readShard worker with
      | error e => rfl
      | ok shardOf => exact engine_scan store shardOf start count names
  | register worker =>
      simp only [answer, poolCalls, register]
      cases store.routing.register worker
        (worker % store.routing.shardCount) <;> rfl

/-! ## Pools in range -/

theorem Sharded.shardOfKey_lt (h : store.Sharded settings) (key : Bytes) :
    store.routing.shardOfKey key < settings.poolCount.toNat := by
  rw [← h.shards]
  exact store.routing.shardOfKey_lt key

theorem Sharded.readShard_lt (h : store.Sharded settings)
    (hshardOf : store.readShard worker = .ok shardOf) (key : Bytes) :
    shardOf key < settings.poolCount.toNat := by
  unfold Store.readShard at hshardOf
  split at hshardOf
  · cases hshardOf
    exact h.shardOfKey_lt key
  · split at hshardOf
    · cases hshardOf
    · rename_i shard hshard
      cases hshardOf
      rw [← h.shards]
      exact h.lt_of_shardOfWorker hshard

theorem Sharded.pool_lt (h : store.Sharded settings) (call : StoreCall) :
    ∀ poolCall ∈ store.poolCalls call,
      poolCall.pool < settings.poolCount.toNat := by
  intro poolCall hmem
  cases call with
  | write key record =>
      have hshard := h.shardOfKey_lt key
      simp only [poolCalls] at hmem
      cases hencode : Row.encode record with
      | error e => simp [hencode] at hmem
      | ok row =>
          simp only [hencode, List.mem_cons] at hmem
          rcases hmem with rfl | hmem
          · exact hshard
          · split at hmem
            · rename_i handle hallocate
              obtain ⟨-, hpool, -⟩ := Engine.admits_of_allocate hallocate
              rw [List.mem_singleton.1 hmem]
              change handle.pool < settings.poolCount.toNat
              rw [hpool]
              exact hshard
            · cases hmem
            · cases hmem
  | delete key =>
      rw [List.mem_singleton.1 hmem]
      exact h.shardOfKey_lt key
  | read worker key names =>
      simp only [poolCalls] at hmem
      cases hshardOf : store.readShard worker with
      | error e => simp [hshardOf] at hmem
      | ok shardOf =>
          simp only [hshardOf, List.mem_singleton] at hmem
          rw [hmem]
          exact h.readShard_lt hshardOf key
  | scan worker start count names =>
      simp only [poolCalls] at hmem
      cases hshardOf : store.readShard worker with
      | error e => simp [hshardOf] at hmem
      | ok shardOf =>
          simp only [hshardOf] at hmem
          obtain ⟨query, -, rfl⟩ := List.mem_map.1 hmem
          exact h.readShard_lt hshardOf query.key
  | register worker => cases hmem

/-! ## No error of the engine -/

theorem Sharded.findIn_ne_engine (h : store.Sharded settings) {shard : Nat}
    (hshard : shard < settings.poolCount.toNat) (key : Bytes)
    (names : Option (List Bytes)) (cause : EngineError) :
    (store.findIn shard key names).1 ≠ .error (.engine cause) := by
  obtain ⟨ledgers, hkeeps, -⟩ := h.keys
  rw [← h.shards, ← h.pools] at hshard
  rw [findIn_fst hkeeps hshard]
  cases (ledgers shard).value? key with
  | none => nofun
  | some row =>
      simp only
      cases present store.fieldCount row names <;> simp

theorem readShard_ne_engine (store : Store) (worker : Nat)
    (cause : EngineError) :
    store.readShard worker ≠ .error (.engine cause) := by
  unfold Store.readShard
  cases store.readRouting with
  | key => nofun
  | affinity => cases store.routing.shardOfWorker worker <;> nofun

theorem Sharded.write_ne_engine (h : store.Sharded settings) (key : Bytes)
    (record : Record) (cause : EngineError) :
    (store.write key record).1 ≠ .error (.engine cause) := by
  rw [h.write_fst]
  cases hrefusal : refusal? (poolBytes settings)
      (store.routing.shardOfKey key) key record with
  | none => simp
  | some e =>
      rcases cause_of_refusal? hrefusal with ⟨chunk, -, rfl⟩ | ⟨-, rfl⟩ <;> simp

theorem Sharded.delete_ne_engine (h : store.Sharded settings) (key : Bytes)
    (cause : EngineError) :
    (store.delete key).1 ≠ .error (.engine cause) := by
  obtain ⟨ledgers, hkeeps, -⟩ := h.keys
  have hshard := h.shardOfKey_lt key
  rw [← h.shards, ← h.pools] at hshard
  simp [delete_eq store key rfl, hkeeps.remove hshard key, Except.mapError]

theorem Sharded.read_ne_engine (h : store.Sharded settings) (worker : Nat)
    (key : Bytes) (names : Option (List Bytes)) (cause : EngineError) :
    (store.read worker key names).1 ≠ .error (.engine cause) := by
  unfold Store.read
  cases hshardOf : store.readShard worker with
  | error e =>
      rintro ⟨⟩
      exact readShard_ne_engine store worker cause hshardOf
  | ok shardOf =>
      exact h.findIn_ne_engine (h.readShard_lt hshardOf key) key names cause

theorem Sharded.scan_ne_engine (h : store.Sharded settings) (worker : Nat)
    (start : Bytes) (count : Nat) (names : Option (List Bytes))
    (cause : EngineError) :
    (store.scan worker start count names).1 ≠
      .error (.reported (.engine cause)) := by
  unfold Store.scan
  cases hshardOf : store.readShard worker with
  | error e =>
      rintro ⟨⟩
      exact readShard_ne_engine store worker cause hshardOf
  | ok shardOf =>
      have hstart : store.scanner.idOf start ≠ .error (.engine cause) := by
        intro hfailed
        cases Scanner.eq_of_idOf_eq_error hfailed
      have hlookup : ∀ (next : Store) key, next.Sharded settings →
          (next.findIn (shardOf key) key names).1 ≠ .error (.engine cause) ∧
            (next.findIn (shardOf key) key names).2.Sharded settings :=
        fun next key hnext =>
          ⟨hnext.findIn_ne_engine (h.readShard_lt hshardOf key) key names cause,
            hnext.findIn (shardOf key) key names⟩
      exact Scanner.scan_ne_reported hlookup store.scanner Memory.listSize count
        hstart h

theorem register_ne_engine (store : Store) (worker : Nat)
    (cause : EngineError) :
    (store.register worker).1 ≠ .error (.engine cause) := by
  unfold Store.register
  cases store.routing.register worker (worker % store.routing.shardCount) <;>
    simp

theorem Sharded.answer_ne_engine (h : store.Sharded settings)
    (call : StoreCall) (cause : EngineError) :
    (store.answer call).1.error? ≠ some (.engine cause) := by
  cases call with
  | write key record =>
      exact mt failure?_eq_some_iff.1 (h.write_ne_engine key record cause)
  | delete key =>
      exact mt failure?_eq_some_iff.1 (h.delete_ne_engine key cause)
  | read worker key names =>
      exact mt failure?_eq_some_iff.1 (h.read_ne_engine worker key names cause)
  | scan worker start count names =>
      have hscan := h.scan_ne_engine worker start count names cause
      rcases hrows : (store.scan worker start count names).1 with halt | rows
      · rw [hrows] at hscan
        cases halt with
        | cutShort => simp [Store.answer, StoreReply.error?, hrows, failure?, Halt.error?]
        | reported e =>
            simpa [Store.answer, StoreReply.error?, hrows, failure?, Halt.error?] using hscan
      · simp [Store.answer, StoreReply.error?, hrows, failure?]
  | register worker =>
      exact mt failure?_eq_some_iff.1 (register_ne_engine store worker cause)

end Store

end TieredCache
