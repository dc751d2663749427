import Mathlib
import TieredCache.Proofs.Row.RoundTrip
import TieredCache.Proofs.Store.Map
import TieredCache.Proofs.Store.Sharding

/-!
# Writes done or refused

Whether a record is stored under a key depends on their sizes and on the room of
a pool, and not on what the store has been through.  A write that is refused
leaves the store as it was.
-/

namespace TieredCache.Store

variable {store : Store} {settings : Settings} {key : Bytes} {record : Record}

theorem cause_of_refusal? {room shard : Nat} {e : StoreError}
    (h : refusal? room shard key record = some e) :
    (∃ chunk, Row.oversized? record = some chunk ∧
      e = .row (.fieldTooLarge chunk.length)) ∨
    Row.oversized? record = none ∧
      e = .allocationFailed shard (Row.size record) := by
  unfold refusal? at h
  cases hchunk : Row.oversized? record with
  | some chunk =>
      simp only [hchunk, Option.some.injEq] at h
      exact .inl ⟨chunk, rfl, h.symm⟩
  | none =>
      simp only [hchunk, Option.ite_none_left_eq_some, Option.some.injEq] at h
      exact .inr ⟨rfl, h.2.symm⟩

theorem Sharded.shardOfKey (h : store.Sharded settings) (key : Bytes) :
    store.routing.shardOfKey key =
      (KeyHash.hash key).toNat % settings.poolCount.toNat := by
  rw [Routing.shardOfKey, h.shards]

theorem Sharded.room (h : store.Sharded settings) (key : Bytes) :
    ∃ below, store.engine.room? (store.routing.shardOfKey key) =
      some (poolBytes settings, below) := by
  have hshard := store.routing.shardOfKey_lt key
  rw [← h.pools] at hshard
  cases hroom : store.engine.room? (store.routing.shardOfKey key) with
  | none =>
      rw [Engine.room?_eq_none_iff] at hroom
      omega
  | some room => exact ⟨room.2, by rw [← h.rooms _ room hroom]⟩

theorem Sharded.write_fst (h : store.Sharded settings) (key : Bytes)
    (record : Record) :
    (store.write key record).1 =
      match refusal? (poolBytes settings) (store.routing.shardOfKey key) key
        record with
      | none => .ok ()
      | some e => .error e := by
  obtain ⟨ledgers, hkeeps, -⟩ := h.keys
  obtain ⟨below, hroom⟩ := h.room key
  cases hrefusal : refusal? (poolBytes settings)
      (store.routing.shardOfKey key) key record with
  | none =>
      obtain ⟨-, hwrite⟩ := write_accepted hroom hkeeps hrefusal
      rw [hwrite]
  | some e => rw [write_refused hroom hrefusal]

theorem Sharded.written (h : store.Sharded settings)
    (hwritten : (store.write key record).1 = .ok ()) :
    let next := (store.write key record).2
    next.routing = store.routing ∧ next.fieldCount = store.fieldCount ∧
      next.engine.inRam? (next.routing.shardOfKey key) key =
        some (Row.rowBytes record) ∧
      ∀ names, (next.findIn (next.routing.shardOfKey key) key names).1 =
        shown next.fieldCount names (some record) := by
  intro next
  have hnext : next.Sharded settings := h.write key record
  rcases write_cases store key record with
    ⟨e, hrefused⟩ | ⟨row, hencode, hadmits, hwrite⟩
  · rw [hrefused] at hwritten
    cases hwritten
  · obtain ⟨hfit, rfl⟩ := Row.encode_eq_ok_iff.1 hencode
    have hsame : next.routing = store.routing ∧
        next.fieldCount = store.fieldCount := by
      simp only [next, hwrite, and_self]
    have hram : next.engine.inRam? (next.routing.shardOfKey key) key =
        some (Row.rowBytes record) := by
      obtain ⟨ledgers, hkeeps, -⟩ := h.keys
      simp only [next, hwrite]
      exact (hkeeps.install hadmits).2
    refine ⟨hsame.1, hsame.2, hram, fun names => ?_⟩
    obtain ⟨ledgers, hkeeps, -⟩ := hnext.keys
    have hshard : next.routing.shardOfKey key < next.engine.pools.size := by
      rw [hnext.pools]
      exact next.routing.shardOfKey_lt key
    rw [findIn_fst hkeeps hshard, hkeeps.value?_of_inRam? hram]
    exact present_rowBytes hfit next.fieldCount names

/-- In whatever state a store is, it stores a record exactly when all names and
values are shorter than `2 ^ 32` bytes and any pool has room for key and row.
Whoever reads in the shard of the key is then shown that record.  Otherwise it
reports the first chunk that is too long, or that there is no room in the shard
of the key, and stays as it was. -/
theorem write_is_all_or_nothing (hcreate : create settings = .ok store)
    (calls : List StoreCall) (key : Bytes) (record : Record) :
    let reached := (store.run calls).1
    let tooLong :=
      (record.flatMap fun field => [field.name, field.value]).find?
        fun chunk => 2 ^ 32 ≤ chunk.length
    let size := (record.map fun field =>
      8 + field.name.length + field.value.length).sum
    ((reached.write key record).1 = .ok () ↔
      (∀ field ∈ record,
        field.name.length < 2 ^ 32 ∧ field.value.length < 2 ^ 32) ∧
      key.length ≤ Engine.maxKeySize ∧ size ≤ Engine.maxItemSize ∧
      key.length + size ≤
        mib * settings.cacheSizeMb.toNat / settings.poolCount.toNat) ∧
    (∀ e, (reached.write key record).1 = .error e →
      (reached.write key record).2 = reached ∧
      ((∃ chunk, tooLong = some chunk ∧
          e = .row (.fieldTooLarge chunk.length)) ∨
        tooLong = none ∧
          e = .allocationFailed (reached.routing.shardOfKey key) size)) ∧
    (reached.write key record).1 = (store.write key record).1 ∧
    ((reached.write key record).1 = .ok () →
      let next := (reached.write key record).2
      ∀ worker shardOf names, next.readShard worker = .ok shardOf →
        shardOf key = next.routing.shardOfKey key →
        (next.read worker key names).1 =
          shown settings.fieldCount.toNat names (some record)) := by
  intro reached tooLong size
  have hfresh : store.Sharded settings := sharded_run hcreate []
  have h : reached.Sharded settings := sharded_run hcreate calls
  have hsize : Row.size record = size := Row.size_eq_sum record
  refine ⟨?_, ?_, ?_, ?_⟩
  · rw [h.write_fst, ← Row.chunkLimit_eq, ← hsize]
    change _ ↔ (∀ field ∈ record, Row.FieldFits field) ∧
      Fits (poolBytes settings) key record
    rw [← refusal?_eq_none_iff]
    cases refusal? (poolBytes settings) (reached.routing.shardOfKey key) key
      record <;> simp
  · intro e he
    have htooLong : Row.oversized? record = tooLong := by
      unfold Row.oversized?
      rw [Row.chunkLimit_eq]
      rfl
    rw [h.write_fst] at he
    cases hrefusal : refusal? (poolBytes settings)
        (reached.routing.shardOfKey key) key record with
    | none =>
        rw [hrefusal] at he
        cases he
    | some cause =>
        rw [hrefusal] at he
        cases he
        obtain ⟨below, hroom⟩ := h.room key
        rw [write_refused hroom hrefusal, ← htooLong, ← hsize]
        exact ⟨rfl, cause_of_refusal? hrefusal⟩
  · rw [h.write_fst, hfresh.write_fst, h.shardOfKey, hfresh.shardOfKey]
  · intro hwritten next worker shardOf names hreader hshard
    obtain ⟨-, hfields, -, hfound⟩ := h.written hwritten
    obtain ⟨-, hreached, -⟩ := settled_run store calls
    rw [Store.read, hreader, ← (fresh_create hcreate).fields, ← hreached,
      ← hfields]
    simp only [hshard]
    exact hfound names

/-- A record replaces another one and is read, and a key of 256 bytes is
refused. -/
theorem write_is_all_or_nothing_smallSettings :
    ∃ store, create smallSettings = .ok store ∧
      let reached := (store.run [.write [1] [⟨[2], [3]⟩]]).1
      let longKey : Bytes := List.replicate 256 0
      (reached.write [1] [⟨[4], [5]⟩]).1 = .ok () ∧
        ((reached.write [1] [⟨[4], [5]⟩]).2.read 7 [1] none).1 =
          .ok (some [⟨[4], [5]⟩]) ∧
        reached.write longKey [⟨[4], [5]⟩] =
          (.error (.allocationFailed (reached.routing.shardOfKey longKey) 10),
            reached) := by
  obtain ⟨store, hcreate⟩ : ∃ store, create smallSettings = .ok store :=
    ⟨_, rfl⟩
  refine ⟨store, hcreate, ?_⟩
  intro reached longKey
  obtain ⟨hshort, -, -, hread⟩ :=
    write_is_all_or_nothing hcreate [.write [1] [⟨[2], [3]⟩]] [1] [⟨[4], [5]⟩]
  obtain ⟨hlong, hrefused, -⟩ :=
    write_is_all_or_nothing hcreate [.write [1] [⟨[2], [3]⟩]] longKey
      [⟨[4], [5]⟩]
  have hwritten : (reached.write [1] [⟨[4], [5]⟩]).1 = .ok () :=
    hshort.2 (by decide)
  refine ⟨hwritten, ?_, ?_⟩
  · have hkeyed : (reached.write [1] [⟨[4], [5]⟩]).2.readShard 7 =
        .ok (reached.write [1] [⟨[4], [5]⟩]).2.routing.shardOfKey := by
      have h := (sharded_run hcreate [.write [1] [⟨[2], [3]⟩]]).write [1]
        [⟨[4], [5]⟩]
      rw [readShard, h.readRouting]
      rfl
    rw [hread hwritten 7 _ none hkeyed rfl]
    rfl
  · cases hanswer : (reached.write longKey [⟨[4], [5]⟩]).1 with
    | ok _ =>
        obtain ⟨-, hkey, -⟩ := hlong.1 hanswer
        rw [List.length_replicate] at hkey
        exact absurd hkey (by decide)
    | error e =>
        obtain ⟨hstate, ⟨chunk, htooLong, -⟩ | ⟨-, rfl⟩⟩ := hrefused e hanswer
        · simp at htooLong
        · exact Prod.ext hanswer hstate

end TieredCache.Store
