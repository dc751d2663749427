import Mathlib
import TieredCache.Proofs.Store.Map
import TieredCache.Proofs.Workload.Records

/-!
# A store under a workload

A store that only ever takes what a workload writes has nothing else to show.
So no lookup fails, whichever shard it goes to, and no removal.  A write depends
on sizes alone: all keys have one length, all rows have one size, and all pools
have the same room.  What was written stays until the engine drops an item.
-/

namespace TieredCache

/-! ## What a workload writes -/

namespace Workload

def Writes (workload : Workload) (row : Bytes) : Prop :=
  ∃ record, workload.Describes record ∧ Row.encode record = .ok row

theorem Writes.present_isOk {workload : Workload} {row : Bytes}
    (h : workload.Writes row) {names : Option (List Bytes)}
    (hasks : workload.Asks names) :
    ∃ fields,
      Store.present workload.fieldCount.toNat row names = .ok fields := by
  obtain ⟨record, hrecord, hencode⟩ := h
  obtain ⟨hfit, rfl⟩ := Row.encode_eq_ok_iff.1 hencode
  exact hrecord.present_isOk hfit hasks

def Enters (workload : Workload) (room : Nat) : Prop :=
  workload.keyLength ≤ Engine.maxKeySize ∧
    workload.rowSize ≤ Engine.maxItemSize ∧
    workload.keyLength + workload.rowSize ≤ room

instance (workload : Workload) (room : Nat) :
    Decidable (workload.Enters room) :=
  inferInstanceAs (Decidable (_ ∧ _ ∧ _))

def refusal? (workload : Workload) (room shard : Nat) : Option StoreError :=
  if Row.chunkLimit ≤ workload.fieldLength.toNat then
    some (.row (.fieldTooLarge workload.fieldLength.toNat))
  else if workload.Enters room then none
  else some (.allocationFailed shard workload.rowSize)

theorem refusal?_eq_none_iff {workload : Workload} {room shard : Nat} :
    workload.refusal? room shard = none ↔
      workload.fieldLength.toNat < Row.chunkLimit ∧ workload.Enters room := by
  rw [← Nat.not_le]
  unfold refusal?
  by_cases hlong : Row.chunkLimit ≤ workload.fieldLength.toNat
  · simp [hlong]
  · by_cases henters : workload.Enters room
    · simp [hlong, henters]
    · simp [hlong, henters]

end Workload

namespace Routing

variable {routing next last : Routing} {worker shard : Nat}

/-- Later routing has the same shards for the same workers, and keeps those
that are bound. -/
structure Extends (routing next : Routing) : Prop where
  shardCount : next.shardCount = routing.shardCount
  workerLimit : next.workerLimit = routing.workerLimit
  bound : ∀ worker : Nat, worker ∈ routing.bindings → worker ∈ next.bindings

theorem Extends.refl (routing : Routing) : routing.Extends routing :=
  ⟨rfl, rfl, fun _ h => h⟩

theorem Extends.trans (h : routing.Extends next) (h' : next.Extends last) :
    routing.Extends last :=
  ⟨h'.shardCount.trans h.shardCount, h'.workerLimit.trans h.workerLimit,
    fun worker hworker => h'.bound worker (h.bound worker hworker)⟩

theorem Extends.shardOfKey (h : routing.Extends next) (key : Bytes) :
    next.shardOfKey key = routing.shardOfKey key := by
  unfold Routing.shardOfKey
  rw [h.shardCount]

def Lawful (routing : Routing) : Prop :=
  ∀ worker shard : Nat, routing.bindings[worker]? = some shard →
    shard < routing.shardCount

theorem register_ok (h : routing.Lawful)
    (hworker : worker < routing.workerLimit)
    (hshard : shard < routing.shardCount) :
    ∃ number next, routing.register worker shard = .ok (number, next) ∧
      next.Lawful ∧ routing.Extends next ∧ worker ∈ next.bindings := by
  unfold register
  rw [if_neg (Nat.not_le.2 hshard), if_neg (Nat.not_le.2 hworker)]
  cases hbound : routing.bindings[worker]? with
  | some number =>
      refine ⟨number, routing, rfl, h, .refl routing, ?_⟩
      rw [← Std.HashMap.isSome_getElem?_iff_mem, hbound]
      rfl
  | none =>
      refine ⟨shard, _, rfl, ?_, ⟨rfl, rfl, ?_⟩, ?_⟩
      · unfold Lawful
        intro other number hnumber
        rw [Std.HashMap.getElem?_insert] at hnumber
        split at hnumber
        · cases hnumber
          exact hshard
        · exact h other number hnumber
      · intro other hother
        exact Std.HashMap.mem_insert.2 (.inr hother)
      · exact Std.HashMap.mem_insert_self

end Routing

namespace Store

variable {store next last : Store} {workload : Workload} {room : Nat}
  {listed listed' : Bytes → Prop} {ledgers : Nat → Ledger Bytes} {key : Bytes}

def nvmEvictions (store : Store) : Nat := store.engine.counters.nvmEvictions

/-- The pools keep rows of the workload, and the listed keys are there unless
something was dropped. -/
structure Stocks (store : Store) (workload : Workload) (listed : Bytes → Prop)
    (ledgers : Nat → Ledger Bytes) : Prop where
  keeps : store.engine.Keeps ledgers
  written : ∀ shard key row, (ledgers shard).value? key = some row →
    workload.Writes row
  listed : store.nvmEvictions = 0 → ∀ key, listed key →
    key ∈ (ledgers (store.routing.shardOfKey key)).keys

/-- A store as it is while the workload goes over it. -/
structure Holds (store : Store) (workload : Workload) (room : Nat)
    (listed : Bytes → Prop) : Prop where
  stocks : ∃ ledgers, store.Stocks workload listed ledgers
  fields : store.fieldCount = workload.fieldCount.toNat
  space : store.scanner.space = workload.keys
  pools : store.engine.pools.size = store.routing.shardCount
  rooms : ∀ shard, shard < store.routing.shardCount →
    ∃ below, store.engine.room? shard = some (room, below)
  lawful : store.routing.Lawful

structure Reaches (store next : Store) (workload : Workload) (room : Nat)
    (listed : Bytes → Prop) : Prop where
  holds : next.Holds workload room listed
  routing : store.routing.Extends next.routing
  scanner : next.scanner = store.scanner
  readRouting : next.readRouting = store.readRouting
  nvmEvictions : store.nvmEvictions ≤ next.nvmEvictions

theorem Holds.mono (h : store.Holds workload room listed)
    (hlisted : ∀ key, listed' key → listed key) :
    store.Holds workload room listed' := by
  obtain ⟨ledgers, hstocks⟩ := h.stocks
  refine { h with stocks := ⟨ledgers, { hstocks with listed := ?_ }⟩ }
  intro hnone key hkey
  exact hstocks.listed hnone key (hlisted key hkey)

theorem Holds.reaches (h : store.Holds workload room listed) :
    store.Reaches store workload room listed :=
  ⟨h, .refl _, rfl, rfl, le_rfl⟩

theorem Reaches.mono (h : store.Reaches next workload room listed)
    (hlisted : ∀ key, listed' key → listed key) :
    store.Reaches next workload room listed' :=
  { h with holds := h.holds.mono hlisted }

theorem Reaches.trans (h : store.Reaches next workload room listed)
    (h' : next.Reaches last workload room listed') :
    store.Reaches last workload room listed' :=
  ⟨h'.holds, h.routing.trans h'.routing, h'.scanner.trans h.scanner,
    h'.readRouting.trans h.readRouting,
    h.nvmEvictions.trans h'.nvmEvictions⟩

/-! ## One operation on items -/

theorem value?_enter {call : ItemCall} {ledger : Ledger Bytes} {row : Bytes}
    (h : (call.enter ledger).value? key = some row) :
    ledger.value? key = some row ∨
      ∃ handle, call = .install handle ∧ handle.memory = row := by
  cases call with
  | install handle =>
      rw [ItemCall.enter, Ledger.value?_set] at h
      split at h
      · cases h
        exact .inr ⟨handle, rfl, rfl⟩
      · exact .inl h
  | find id key => exact .inl h
  | remove id gone =>
      rw [ItemCall.enter, Ledger.value?_erase] at h
      split at h
      · cases h
      · exact .inl h

/-- An operation on items keeps to the workload when it installs what the
workload writes, and lists what it enters. -/
theorem Holds.perform (h : store.Holds workload room listed) {call : ItemCall}
    (hpermits : store.engine.Permits call)
    (hwritten : ∀ handle, call = .install handle →
      workload.Writes handle.memory)
    (hlisted : ∀ (ledgers : Nat → Ledger Bytes) key,
      (listed key → key ∈ (ledgers (store.routing.shardOfKey key)).keys) →
      listed' key →
        key ∈ (Function.update ledgers call.pool
          (call.enter (ledgers call.pool))
          (store.routing.shardOfKey key)).keys) :
    store.Reaches { store with engine := store.engine.perform call } workload
      room listed' := by
  obtain ⟨ledgers, hstocks⟩ := h.stocks
  have hcounted := Engine.nvmEvictions_perform store.engine call
  refine ⟨⟨⟨store.engine.revise call ledgers,
    hstocks.keeps.perform hpermits, ?_, ?_⟩, h.fields, h.space, ?_, ?_,
    h.lawful⟩, .refl _, rfl, rfl, ?_⟩
  · intro shard key row hrow
    by_cases hshard : shard = call.pool
    · rw [hshard, Engine.revise, Function.update_self,
        Ledger.value?_eraseAll] at hrow
      split at hrow
      · cases hrow
      · rcases value?_enter hrow with hold | ⟨handle, hcall, rfl⟩
        · exact hstocks.written _ key row hold
        · exact hwritten handle hcall
    · rw [Engine.revise, Function.update_of_ne hshard] at hrow
      exact hstocks.written shard key row hrow
  · intro hnone key hkey
    change (store.engine.perform call).counters.nvmEvictions = 0 at hnone
    have hbefore : store.nvmEvictions = 0 := by
      unfold Store.nvmEvictions
      omega
    have hdropped : store.engine.dropped call = [] := by
      apply List.eq_nil_of_length_eq_zero
      omega
    rw [Engine.revise, hdropped, Ledger.eraseAll_nil]
    exact hlisted ledgers key (hstocks.listed hbefore key) hkey
  · exact (Engine.size_pools_perform store.engine call).trans h.pools
  · intro shard hshard
    simp only [hstocks.keeps.room?_perform hpermits]
    exact h.rooms shard hshard
  · change store.engine.counters.nvmEvictions ≤
      (store.engine.perform call).counters.nvmEvictions
    omega

/-! ## Lookups and removals -/

theorem Holds.findIn (h : store.Holds workload room listed) {shard : Nat}
    (hshard : shard < store.engine.pools.size) (key : Bytes)
    {names : Option (List Bytes)} (hasks : workload.Asks names) :
    ∃ found, (store.findIn shard key names).1 = .ok found ∧
      (store.nvmEvictions = 0 → listed key →
        shard = store.routing.shardOfKey key → found.isSome) ∧
      store.Reaches (store.findIn shard key names).2 workload room listed := by
  obtain ⟨ledgers, hstocks⟩ := h.stocks
  have hnext : store.Reaches (store.findIn shard key names).2 workload room
      listed := by
    have hpermits : store.engine.Permits (.find shard key) := trivial
    rw [findIn_snd]
    apply h.perform hpermits
    · intro handle hcall
      cases hcall
    · intro ledgers other hbefore hother
      rw [ItemCall.enter, Function.update_eq_self]
      exact hbefore hother
  have hanswer := findIn_fst hstocks.keeps hshard key names
  cases hvalue : (ledgers shard).value? key with
  | none =>
      rw [hvalue] at hanswer
      refine ⟨none, hanswer, ?_, hnext⟩
      rintro hnone hlisted rfl
      exact absurd (hstocks.listed hnone key hlisted)
        (Ledger.value?_eq_none_iff.1 hvalue)
  | some row =>
      obtain ⟨fields, hfields⟩ :=
        (hstocks.written shard key row hvalue).present_isOk hasks
      rw [← h.fields] at hfields
      rw [hvalue] at hanswer
      simp only [hfields] at hanswer
      exact ⟨some fields, hanswer, fun _ _ _ => rfl, hnext⟩

theorem Holds.delete (h : store.Holds workload room listed) (key : Bytes) :
    ∃ found, (store.delete key).1 = .ok found ∧
      store.Reaches (store.delete key).2 workload room
        fun other => listed other ∧ other ≠ key := by
  obtain ⟨ledgers, hstocks⟩ := h.stocks
  have hshard : store.routing.shardOfKey key < store.engine.pools.size := by
    rw [h.pools]
    exact store.routing.shardOfKey_lt key
  rw [delete_eq store key rfl, hstocks.keeps.remove hshard key]
  have hpermits : store.engine.Permits
      (.remove (store.routing.shardOfKey key) key) := trivial
  refine ⟨_, rfl, ?_⟩
  apply h.perform hpermits
  · intro handle hcall
    cases hcall
  · rintro ledgers other hbefore ⟨hlisted, hne⟩
    have hmem := hbefore hlisted
    by_cases hother :
        store.routing.shardOfKey other = store.routing.shardOfKey key
    · rw [hother] at hmem ⊢
      rw [ItemCall.pool, Function.update_self]
      exact Ledger.mem_keys_erase.2 ⟨hmem, hne⟩
    · rw [ItemCall.pool, Function.update_of_ne hother]
      exact hmem

/-! ## Writes -/

theorem refusal?_of_describes (hkey : key.length = workload.keyLength)
    {record : Record} (hrecord : workload.Describes record)
    (hfields : 0 < workload.fieldCount.toNat) (room shard : Nat) :
    refusal? room shard key record = workload.refusal? room shard := by
  have hencode := hrecord.encode_eq hfields
  have hfits : Fits room key record ↔ workload.Enters room := by
    unfold Fits Workload.Enters
    rw [hkey, ← hrecord.length_rowBytes, Row.length_rowBytes_eq_size]
  rw [Row.encode_eq] at hencode
  unfold refusal? Workload.refusal?
  by_cases hlong : Row.chunkLimit ≤ workload.fieldLength.toNat
  · rw [if_pos hlong] at hencode ⊢
    cases hchunk : Row.oversized? record with
    | none => simp [hchunk] at hencode
    | some chunk =>
        simp only [hchunk, Except.error.injEq] at hencode ⊢
        rw [hencode]
  · rw [if_neg hlong] at hencode ⊢
    cases hchunk : Row.oversized? record with
    | none =>
        simp only [hfits, ← hrecord.length_rowBytes,
          Row.length_rowBytes_eq_size]
    | some chunk => simp [hchunk] at hencode

theorem Holds.write_refused (h : store.Holds workload room listed)
    (hkey : key.length = workload.keyLength) {record : Record}
    (hrecord : workload.Describes record)
    (hfields : 0 < workload.fieldCount.toNat) {e : StoreError}
    (hrefused :
      workload.refusal? room (store.routing.shardOfKey key) = some e) :
    store.write key record = (.error e, store) := by
  obtain ⟨below, hroom⟩ := h.rooms _ (store.routing.shardOfKey_lt key)
  rw [← refusal?_of_describes hkey hrecord hfields] at hrefused
  exact Store.write_refused hroom hrefused

theorem Holds.write_accepted (h : store.Holds workload room listed)
    (hkey : key.length = workload.keyLength) {record : Record}
    (hrecord : workload.Describes record)
    (hfields : 0 < workload.fieldCount.toNat)
    (haccepted :
      workload.refusal? room (store.routing.shardOfKey key) = none) :
    (store.write key record).1 = .ok () ∧
      store.Reaches (store.write key record).2 workload room
        fun other => listed other ∨ other = key := by
  obtain ⟨ledgers, hstocks⟩ := h.stocks
  obtain ⟨below, hroom⟩ := h.rooms _ (store.routing.shardOfKey_lt key)
  rw [← refusal?_of_describes hkey hrecord hfields] at haccepted
  obtain ⟨hadmits, hwrite⟩ :=
    Store.write_accepted hroom hstocks.keeps haccepted
  obtain ⟨hfit, -⟩ := refusal?_eq_none_iff.1 haccepted
  obtain ⟨shard, hshard⟩ : ∃ shard, store.routing.shardOfKey key = shard :=
    ⟨_, rfl⟩
  rw [hwrite]
  rw [hshard] at hadmits ⊢
  refine ⟨rfl, h.perform hadmits ?_ ?_⟩
  · rintro handle ⟨⟩
    exact ⟨record, hrecord, Row.encode_eq_ok_iff.2 ⟨hfit, rfl⟩⟩
  · intro ledgers other hbefore hother
    by_cases hsame : store.routing.shardOfKey other = shard
    · rw [hsame] at hbefore ⊢
      rw [ItemCall.pool, Function.update_self]
      exact Ledger.mem_keys_set.2 (hother.symm.imp_right hbefore)
    · rw [ItemCall.pool, Function.update_of_ne hsame]
      rcases hother with hlisted | rfl
      · exact hbefore hlisted
      · exact absurd hshard hsame

/-! ## Workers -/

theorem Holds.readShard (h : store.Holds workload room listed) {worker : Nat}
    (hworker : worker ∈ store.routing.bindings) :
    ∃ shardOf, store.readShard worker = .ok shardOf ∧
      (∀ key, shardOf key < store.routing.shardCount) ∧
      (store.readRouting = .key → shardOf = store.routing.shardOfKey) := by
  unfold Store.readShard
  cases hrouting : store.readRouting with
  | key => exact ⟨_, rfl, store.routing.shardOfKey_lt, fun _ => rfl⟩
  | affinity =>
      obtain ⟨shard, hshard⟩ : ∃ shard,
          store.routing.bindings[worker]? = some shard := by
        rw [← Option.isSome_iff_exists]
        exact Std.HashMap.isSome_getElem?_iff_mem.2 hworker
      refine ⟨fun _ => shard, ?_, fun _ => h.lawful worker shard hshard, ?_⟩
      · simp only [Routing.shardOfWorker, hshard]
      · intro hkey
        cases hkey

theorem Holds.read (h : store.Holds workload room listed) {worker : Nat}
    (hworker : worker ∈ store.routing.bindings) (key : Bytes)
    {names : Option (List Bytes)} (hasks : workload.Asks names) :
    ∃ found, (store.read worker key names).1 = .ok found ∧
      (store.nvmEvictions = 0 → listed key → store.readRouting = .key →
        found.isSome) ∧
      store.Reaches (store.read worker key names).2 workload room listed := by
  obtain ⟨shardOf, hshardOf, hlt, hkeyed⟩ := h.readShard hworker
  obtain ⟨found, hfound, hlisted, hnext⟩ :=
    h.findIn (h.pools ▸ hlt key) key hasks
  unfold Store.read
  simp only [hshardOf]
  refine ⟨found, hfound, ?_, hnext⟩
  intro hnone hkey hrouting
  exact hlisted hnone hkey (congrFun (hkeyed hrouting) key)

/-- A bound worker's scan from a key of the workload is answered, unless there can
be no memory for it, and one that goes to the shards of keys finds something from
a listed key on. -/
theorem Holds.scan (h : store.Holds workload room listed) {worker id : Nat}
    (hworker : worker ∈ store.routing.bindings)
    (hkey : workload.keys.key? id = some key)
    (hid : workload.keys.id? key = some id) (hlimit : id < idLimit)
    (count : Nat) {names : Option (List Bytes)}
    (hasks : workload.Asks names) :
    store.Reaches (store.scan worker key count names).2 workload room
        listed ∧
      (¬store.scanner.hasMemory Memory.listSize count = true →
        (store.scan worker key count names).1 = .error .cutShort) ∧
      (store.scanner.hasMemory Memory.listSize count = true →
        ∃ found, (store.scan worker key count names).1 = .ok found ∧
          (store.nvmEvictions = 0 → listed key → store.readRouting = .key →
            0 < count → 0 < store.scanner.lookupLimit → found ≠ [])) := by
  obtain ⟨shardOf, hshardOf, hlt, hkeyed⟩ := h.readShard hworker
  have hlookup : ∀ next key,
      store.Reaches next workload room listed →
      (∃ found, (Store.findIn next (shardOf key) key names).1 = .ok found) ∧
        store.Reaches (Store.findIn next (shardOf key) key names).2 workload
          room listed := by
    intro next key hreaches
    have hshard : shardOf key < next.engine.pools.size := by
      rw [hreaches.holds.pools, hreaches.routing.shardCount]
      exact hlt key
    obtain ⟨found, hfound, -, hnext⟩ := hreaches.holds.findIn hshard key hasks
    exact ⟨⟨found, hfound⟩, hreaches.trans hnext⟩
  have hstart : store.scanner.idOf key = .ok id := by
    unfold Scanner.idOf
    rw [h.space, hid]
  unfold Store.scan
  simp only [hshardOf]
  refine ⟨?_, ?_, ?_⟩
  · exact Scanner.scan_keeps (fun next key hnext => (hlookup next key hnext).2)
      store.scanner Memory.listSize key count h.reaches
  · intro hmemory
    rw [Scanner.scan_of_no_memory hstart hmemory]
  · intro hmemory
    obtain ⟨found, hfound⟩ :=
      Scanner.scan_answered hlookup hstart hmemory h.reaches
    refine ⟨found, hfound, ?_⟩
    intro hnone hlisted hrouting hcount hlookups
    obtain ⟨row, hrow, hsome, -⟩ := h.findIn (h.pools ▸ hlt key) key hasks
    obtain ⟨fields, rfl⟩ := Option.isSome_iff_exists.1
      (hsome hnone hlisted (congrFun (hkeyed hrouting) key))
    have hkeyAt : store.scanner.keyAt? id = some key := by
      unfold Scanner.keyAt?
      rw [if_pos hlimit, h.space, hkey]
    have hne := Scanner.scan_ne_nil hlookup Memory.listSize hstart hkeyAt
      hcount hlookups h.reaches hrow
    rw [hfound] at hne
    simpa using hne

theorem Holds.register (h : store.Holds workload room listed) (worker : Nat) :
    store.Reaches (store.register worker).2 workload room listed ∧
      (worker < store.routing.workerLimit →
        ∃ shard, (store.register worker).1 = .ok shard) ∧
      ∀ shard, (store.register worker).1 = .ok shard →
        worker ∈ (store.register worker).2.routing.bindings := by
  have hshard : worker % store.routing.shardCount < store.routing.shardCount :=
    Nat.mod_lt _ store.routing.shardCount_pos
  unfold Store.register
  by_cases hworker : worker < store.routing.workerLimit
  · obtain ⟨number, next, hregister, hlawful, hextends, hbound⟩ :=
      Routing.register_ok h.lawful hworker hshard
    obtain ⟨ledgers, hstocks⟩ := h.stocks
    simp only [hregister]
    refine ⟨⟨⟨⟨ledgers, ⟨hstocks.keeps, hstocks.written, ?_⟩⟩, h.fields,
      h.space, ?_, ?_, hlawful⟩, hextends, rfl, rfl, le_rfl⟩,
      fun _ => ⟨number, rfl⟩, fun _ _ => hbound⟩
    · intro hnone key hkey
      simp only [hextends.shardOfKey]
      exact hstocks.listed hnone key hkey
    · exact h.pools.trans hextends.shardCount.symm
    · intro shard hlt
      exact h.rooms shard (hextends.shardCount ▸ hlt)
  · have hregister : store.routing.register worker
        (worker % store.routing.shardCount) =
          .error (.workerOutOfRange worker store.routing.workerLimit) := by
      unfold Routing.register
      rw [if_neg (Nat.not_le.2 hshard), if_pos (Nat.not_lt.1 hworker)]
    simp only [hregister]
    exact ⟨h.reaches, fun hlt => absurd hlt hworker, fun shard hok => by
      cases hok⟩

end Store

end TieredCache
