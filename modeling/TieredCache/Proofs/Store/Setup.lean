import Mathlib
import TieredCache.Proofs.Engine.Budget
import TieredCache.Proofs.Store.PoolCalls

/-!
# Settings that make a store

Settings are refused for the first mistake in them, and of the engine's own
checks only its limit on pools can fail.  All others make a store whose pools
share the RAM evenly, and no call on it meets an error of the engine.
-/

namespace TieredCache

theorem Routing.create_cases (shardCount workerLimit : Nat) :
    (¬1 ≤ shardCount ∧ Routing.create shardCount workerLimit =
      .error (.invalid Key.poolCount .notPositive)) ∨
    (1 ≤ shardCount ∧ ∃ routing,
      Routing.create shardCount workerLimit = .ok routing ∧
        routing.shardCount = shardCount) := by
  unfold create
  split
  · exact .inr ⟨‹_›, _, rfl, rfl⟩
  · exact .inl ⟨‹_›, rfl⟩

theorem Scanner.create_cases (settings : ScanSettings) :
    (¬(1 ≤ settings.width.toNat ∧ settings.width.toNat ≤ 20) ∧
      Scanner.create settings =
        .error (.invalid Key.keyWidth (.widthOutside 20))) ∨
    ((1 ≤ settings.width.toNat ∧ settings.width.toNat ≤ 20) ∧
      ∃ scanner, Scanner.create settings = .ok scanner) := by
  unfold create
  simp only
  split
  · exact .inr ⟨‹_›, _, rfl⟩
  · exact .inl ⟨‹_›, rfl⟩

namespace Store

open Engine

variable {settings : Settings} {store : Store} {hierarchy : Hierarchy}
  {engine opened : Engine} {grants : List Grant} {bytes : Nat}

theorem ramBytes_cases (settings : Settings) :
    (¬(1 ≤ settings.cacheSizeMb.toNat ∧
        settings.cacheSizeMb.toNat < 2 ^ 44) ∧
      ramBytes settings = .error (.invalid Key.cacheSize .notPositive)) ∨
    ((1 ≤ settings.cacheSizeMb.toNat ∧
        settings.cacheSizeMb.toNat < 2 ^ 44) ∧
      ramBytes settings = .ok (mib * settings.cacheSizeMb.toNat)) := by
  have hsize : 0 < mib * settings.cacheSizeMb.toNat ∧
      mib * settings.cacheSizeMb.toNat < byteLimit ↔
      1 ≤ settings.cacheSizeMb.toNat ∧
        settings.cacheSizeMb.toNat < 2 ^ 44 := by
    simp only [mib, kib, byteLimit, UInt64.size]
    omega
  unfold ramBytes
  simp only [hsize]
  split
  · exact .inr ⟨‹_›, rfl⟩
  · exact .inl ⟨‹_›, rfl⟩

/-! ## Pools of equal size -/

theorem grant_of_room (h : engine.Budgeted opened grants) (hbytes : 0 < bytes)
    {number : Nat} (hnumber : grants.length = number) (hfew : number < maxPools)
    (hroom : engine.reserved + bytes ≤ opened.ramBytes) (name : String) :
    ∃ next, engine.addPool name bytes = .ok (number, next) ∧
      next.Budgeted opened (grants ++ [⟨number, bytes⟩]) ∧
      next.reserved = engine.reserved + bytes ∧
      (grants ++ [Grant.mk number bytes]).length = number + 1 := by
  have hleft : bytes ≤ engine.available := by
    unfold Engine.available
    rw [h.ramBytes]
    omega
  have hlater : (grants ++ [Grant.mk number bytes]).length = number + 1 := by
    simp [hnumber]
  rw [← h.size] at hnumber
  rw [← hnumber] at hfew hlater ⊢
  exact ⟨_, addPool_of_room hfew hbytes hleft name, h.grant hfew hleft, rfl,
    hlater⟩

def poolRequests (bytes first count : Nat) : List (String × Nat) :=
  (List.range' first count).map fun number => (s!"pool{number}", bytes)

theorem addPools_of_room (h : engine.Budgeted opened grants)
    (hbytes : 0 < bytes) {first count : Nat} (hfirst : grants.length = first)
    (hfew : first + count ≤ maxPools)
    (hroom : engine.reserved + count * bytes ≤ opened.ramBytes) :
    ∃ next, addPools bytes first count engine = .ok next ∧
      (poolRequests bytes first count).foldl request (engine, grants) =
        (next, grants ++
          (List.range' first count).map fun number => ⟨number, bytes⟩) := by
  induction count generalizing engine grants first with
  | zero => exact ⟨engine, rfl, by simp [poolRequests]⟩
  | succ count ih =>
      rw [Nat.succ_mul] at hroom
      obtain ⟨grown, hadd, hgrown, hreserved, hlater⟩ := grant_of_room h hbytes
        hfirst (by omega) (by omega : engine.reserved + bytes ≤ opened.ramBytes)
        s!"pool{first}"
      obtain ⟨next, hnext, hgranted⟩ := ih hgrown hlater (by omega) (by omega)
      refine ⟨next, ?_, ?_⟩
      · simp only [addPools, hadd]
        exact hnext
      · simp only [poolRequests, List.range'_succ, List.map_cons,
          List.foldl_cons, request, hadd]
        rw [← poolRequests, hgranted, List.append_assoc]
        rfl

theorem addPools_of_many (h : engine.Budgeted opened grants)
    (hbytes : 0 < bytes) {first count : Nat} (hfirst : grants.length = first)
    (hmany : maxPools < first + count)
    (hroom : engine.reserved + count * bytes ≤ opened.ramBytes) :
    addPools bytes first count engine = .error (.tooManyPools maxPools) := by
  -- Pools are granted until there are as many as there can be.
  induction count generalizing engine grants first with
  | zero =>
      have hfew := h.few
      omega
  | succ count ih =>
      rw [Nat.succ_mul] at hroom
      by_cases hfull : maxPools ≤ first
      · have hsize : maxPools ≤ engine.pools.size := by
          rw [h.size, hfirst]
          exact hfull
        have hrefused : engine.addPool s!"pool{first}" bytes =
            .error (.tooManyPools maxPools) :=
          addPool_eq_error_iff.2 (.inl ⟨hsize, rfl⟩)
        simp only [addPools, hrefused]
      · obtain ⟨grown, hadd, hgrown, hreserved, hlater⟩ :=
          grant_of_room h hbytes hfirst (by omega)
            (by omega : engine.reserved + bytes ≤ opened.ramBytes)
            s!"pool{first}"
        simp only [addPools, hadd]
        exact ih hgrown hlater (by omega) (by omega)

/-! ## The engine of a store -/

theorem equal_pools_fit (hcreate : Engine.create bytes hierarchy = .ok opened)
    (count : Nat) :
    opened.reserved + count * (bytes / count) ≤ opened.ramBytes := by
  rw [Engine.create_eq hcreate, Nat.zero_add]
  exact Nat.mul_div_le bytes count

theorem createEngine_of_few_bytes (hbytes : 0 < bytes) {count : Nat}
    (hcount : bytes < count) (hierarchy : Hierarchy) :
    createEngine bytes count hierarchy =
      .error (.settings (.invalid Key.poolCount .morePoolsThanBytes)) := by
  obtain ⟨opened, hcreate⟩ := Engine.exists_create hbytes hierarchy
  simp only [createEngine, hcreate, if_pos (Nat.div_eq_of_lt hcount)]

theorem createEngine_of_many (hbytes : 0 < bytes) {count : Nat}
    (hcount : count ≤ bytes) (hmany : maxPools < count)
    (hierarchy : Hierarchy) :
    createEngine bytes count hierarchy =
      .error (.engine (.tooManyPools maxPools)) := by
  have hshare : 0 < bytes / count := Nat.div_pos hcount (by omega)
  obtain ⟨opened, hcreate⟩ := Engine.exists_create hbytes hierarchy
  have hrefused := addPools_of_many (budgeted_create hcreate) hshare
    List.length_nil (by omega : maxPools < 0 + count)
    (equal_pools_fit hcreate count)
  simp only [createEngine, hcreate, if_neg hshare.ne', hrefused]

theorem createEngine_of_few {count : Nat} (hpos : 0 < count)
    (hcount : count ≤ bytes) (hfew : count ≤ maxPools)
    (hierarchy : Hierarchy) :
    ∃ opened engine, Engine.create bytes hierarchy = .ok opened ∧
      createEngine bytes count hierarchy = .ok engine ∧
      opened.requests (poolRequests (bytes / count) 0 count) =
        (engine, (List.range count).map fun number =>
          ⟨number, bytes / count⟩) := by
  have hshare : 0 < bytes / count := Nat.div_pos hcount hpos
  obtain ⟨opened, hcreate⟩ :=
    Engine.exists_create (hpos.trans_le hcount) hierarchy
  obtain ⟨engine, hadd, hgranted⟩ :=
    addPools_of_room (budgeted_create hcreate) hshare List.length_nil
      (by omega : 0 + count ≤ maxPools) (equal_pools_fit hcreate count)
  refine ⟨opened, engine, hcreate, ?_, ?_⟩
  · simp only [createEngine, hcreate, if_neg hshare.ne', hadd]
  · rw [requests, hgranted, List.nil_append, List.range_eq_range']

theorem room?_of_budgeted (h : engine.Budgeted opened grants) {number : Nat}
    {grant : Grant} (hgrant : grants[number]? = some grant) :
    engine.room? number =
      some (grant.bytes, opened.nvmShare grant.bytes) := by
  rw [Engine.room?, ← Array.getElem?_toList, h.pools, List.getElem?_map, hgrant]
  rfl

/-! ## Mistakes in settings -/

def mistake? (fits : Prop) [Decidable fits] (e : StoreError) :
    Option StoreError :=
  if fits then none else some e

/-- What can be wrong with settings, in the order in which it is reported. -/
def mistakes (settings : Settings) : List (Option StoreError) :=
  let pools := settings.poolCount.toNat
  let width := settings.scan.width.toNat
  let megabytes := settings.cacheSizeMb.toNat
  [ match settings.tier.hierarchy with
    | .error e => some (.settings e)
    | .ok _ => none,
    mistake? (1 ≤ pools) (.settings (.invalid Key.poolCount .notPositive)),
    mistake? (1 ≤ width ∧ width ≤ 20)
      (.settings (.invalid Key.keyWidth (.widthOutside 20))),
    mistake? (1 ≤ megabytes ∧ megabytes < 2 ^ 44)
      (.settings (.invalid Key.cacheSize .notPositive)),
    mistake? (pools ≤ mib * megabytes)
      (.settings (.invalid Key.poolCount .morePoolsThanBytes)),
    mistake? (pools ≤ 64) (.engine (.tooManyPools 64)) ]

def firstMistake? (settings : Settings) : Option StoreError :=
  (mistakes settings).findSome? id

/-- A store with as many pools as its settings ask for, which were granted one
after another and share the RAM evenly. -/
def HasEvenPools (store : Store) (settings : Settings) : Prop :=
  let pools := settings.poolCount.toNat
  let ram := mib * settings.cacheSizeMb.toNat
  ∃ hierarchy opened, settings.tier.hierarchy = .ok hierarchy ∧
    Engine.create ram hierarchy = .ok opened ∧
    opened.requests (poolRequests (ram / pools) 0 pools) =
      (store.engine,
        (List.range pools).map fun number => ⟨number, ram / pools⟩)

theorem create_outcome (settings : Settings) :
    match firstMistake? settings with
    | some e => create settings = .error e
    | none => ∃ store, create settings = .ok store ∧
        store.HasEvenPools settings := by
  -- The checks one by one, in the order in which they are made; after each only
  -- the case is left in which it was passed.
  unfold firstMistake? mistakes mistake? create
  rcases hhierarchy : settings.tier.hierarchy with e | hierarchy
  · rfl
  rcases Routing.create_cases settings.poolCount.toNat
      settings.maxWorkers.toNat with
    ⟨hpools, hrouting⟩ | ⟨hpools, routing, hrouting, hshards⟩
  · simp only [hrouting, if_neg hpools, List.findSome?_cons, id]
  rcases Scanner.create_cases settings.scan with
    ⟨hwidth, hscanner⟩ | ⟨hwidth, scanner, hscanner⟩
  · simp only [hrouting, hscanner, if_pos hpools, if_neg hwidth,
      List.findSome?_cons, id]
  rcases ramBytes_cases settings with ⟨hsize, hram⟩ | ⟨hsize, hram⟩
  · simp only [hrouting, hscanner, hram, if_pos hpools, if_pos hwidth,
      if_neg hsize, List.findSome?_cons, id]
  simp only [hrouting, hshards, hscanner, hram, if_pos hpools, if_pos hwidth,
    if_pos hsize, List.findSome?_cons, id]
  by_cases hbytes : settings.poolCount.toNat ≤ mib * settings.cacheSizeMb.toNat
  · by_cases hfew : settings.poolCount.toNat ≤ 64
    · obtain ⟨opened, engine, hopened, hengine, hgranted⟩ :=
        createEngine_of_few hpools hbytes hfew hierarchy
      simp only [hengine, if_pos hbytes, if_pos hfew, List.findSome?_nil]
      exact ⟨_, rfl, hierarchy, opened, hhierarchy, hopened, hgranted⟩
    · have hrefused := createEngine_of_many (hpools.trans hbytes) hbytes
        (Nat.not_le.1 hfew) hierarchy
      simp only [hrefused, if_pos hbytes, if_neg hfew]
      rfl
  · have hpos : 0 < mib * settings.cacheSizeMb.toNat :=
      Nat.mul_pos (by decide) hsize.1
    simp only [createEngine_of_few_bytes hpos (Nat.not_le.1 hbytes),
      if_neg hbytes]

theorem firstMistake?_eq_none_iff :
    firstMistake? settings = none ↔
      (∃ hierarchy, settings.tier.hierarchy = .ok hierarchy) ∧
      (1 ≤ settings.poolCount.toNat ∧ settings.poolCount.toNat ≤ 64) ∧
      (1 ≤ settings.scan.width.toNat ∧ settings.scan.width.toNat ≤ 20) ∧
      (1 ≤ settings.cacheSizeMb.toNat ∧
        settings.cacheSizeMb.toNat < 2 ^ 44) := by
  -- 64 pools need no more than the bytes of the least cache.
  have hroom : settings.poolCount.toNat ≤ 64 →
      1 ≤ settings.cacheSizeMb.toNat →
      settings.poolCount.toNat ≤ mib * settings.cacheSizeMb.toNat := by
    simp only [mib, kib]
    omega
  unfold firstMistake? mistakes mistake?
  rw [List.findSome?_eq_none_iff]
  simp only [List.forall_mem_cons, id, ite_eq_left_iff, reduceCtorEq, imp_false,
    not_not]
  rcases settings.tier.hierarchy with e | hierarchy
  · simp
  constructor
  · rintro ⟨-, hpools, hwidth, hsize, -, hfew, -⟩
    exact ⟨⟨_, rfl⟩, ⟨hpools, hfew⟩, hwidth, hsize⟩
  · rintro ⟨-, ⟨hpools, hfew⟩, hwidth, hsize⟩
    exact ⟨rfl, hpools, hwidth, hsize, hroom hfew hsize.1, hfew, nofun⟩

theorem create_eq_error_iff {e : StoreError} :
    create settings = .error e ↔ firstMistake? settings = some e := by
  have houtcome := create_outcome settings
  cases hmistake : firstMistake? settings with
  | none =>
      rw [hmistake] at houtcome
      obtain ⟨store, hcreate, -⟩ := houtcome
      simp [hcreate]
  | some cause =>
      rw [hmistake] at houtcome
      simp [houtcome]

theorem create_eq_ok (h : create settings = .ok store) :
    firstMistake? settings = none ∧ store.HasEvenPools settings := by
  have houtcome := create_outcome settings
  cases hmistake : firstMistake? settings with
  | none =>
      rw [hmistake] at houtcome
      obtain ⟨made, hcreate, heven⟩ := houtcome
      rw [h] at hcreate
      cases hcreate
      exact ⟨rfl, heven⟩
  | some cause =>
      rw [create_eq_error_iff.2 hmistake] at h
      cases h

theorem cause_of_mistake {cause : EngineError}
    (h : firstMistake? settings = some (.engine cause)) :
    cause = .tooManyPools 64 := by
  obtain ⟨mistake, hmem, hmistake⟩ := List.exists_of_findSome?_eq_some h
  unfold mistakes mistake? at hmem
  simp only [List.mem_cons, List.not_mem_nil, or_false] at hmem
  rcases hmem with rfl | rfl | rfl | rfl | rfl | rfl <;>
    simp only [id] at hmistake <;> split at hmistake <;> cases hmistake
  rfl

theorem HasEvenPools.rooms (h : store.HasEvenPools settings) :
    ∃ hierarchy, settings.tier.hierarchy = .ok hierarchy ∧
      ∀ shard, shard < settings.poolCount.toNat →
        store.engine.room? shard = some (poolBytes settings,
          hierarchy.logicalCapacity * poolBytes settings /
            (mib * settings.cacheSizeMb.toNat)) := by
  obtain ⟨hierarchy, opened, hhierarchy, hopened, hgranted⟩ := h
  refine ⟨hierarchy, hhierarchy, ?_⟩
  intro shard hshard
  have hbudgeted := budgeted_requests hopened
    (poolRequests (poolBytes settings) 0 settings.poolCount.toNat)
  have hgrant : ((List.range settings.poolCount.toNat).map fun number =>
      Grant.mk number (poolBytes settings))[shard]? =
      some ⟨shard, poolBytes settings⟩ := by
    simp [hshard]
  rw [poolBytes, hgranted] at hbudgeted
  rw [room?_of_budgeted hbudgeted hgrant, Engine.nvmShare,
    Engine.create_eq hopened]

/-! ## Accepted settings -/

/-- Settings make a store if its hierarchy can be built, and it has from 1 to 64
pools, keys of 1 to 20 digits, and from one to less than 2 ^ 44 mebibytes.  The
first mistake in others is reported; of the engine's own errors it can only be
that it has too many pools.  The pools of a store have the numbers of their
shards, the same part of the RAM, and what goes with it of the logical capacity.
Whatever calls were served before, a call on the store comes to calls on these
pools only, and the engine refuses none of them. -/
theorem settings_that_make_a_store (settings : Settings) :
    let pools := settings.poolCount.toNat
    let ram := mib * settings.cacheSizeMb.toNat
    ((∃ store, create settings = .ok store) ↔
      (∃ hierarchy, settings.tier.hierarchy = .ok hierarchy) ∧
      (1 ≤ pools ∧ pools ≤ 64) ∧
      (1 ≤ settings.scan.width.toNat ∧ settings.scan.width.toNat ≤ 20) ∧
      (1 ≤ settings.cacheSizeMb.toNat ∧
        settings.cacheSizeMb.toNat < 2 ^ 44)) ∧
    (∀ e, create settings = .error e ↔ firstMistake? settings = some e) ∧
    (∀ cause, create settings = .error (.engine cause) →
      cause = .tooManyPools 64) ∧
    ∀ store, create settings = .ok store →
      store.engine.pools.size = pools ∧ store.HasEvenPools settings ∧
      (∃ hierarchy, settings.tier.hierarchy = .ok hierarchy ∧
        ∀ shard, shard < pools → store.poolOf? shard = some shard ∧
          store.engine.room? shard = some (ram / pools,
            hierarchy.logicalCapacity * (ram / pools) / ram)) ∧
      ∀ calls call,
        let reached := (store.run calls).1
        reached.engine.pools.size = pools ∧
        (∀ poolCall ∈ reached.poolCalls call, poolCall.pool < pools) ∧
        (reached.answer call).2.engine =
          reached.engine.after (reached.poolCalls call) ∧
        ∀ cause, (reached.answer call).1.error? ≠ some (.engine cause) := by
  intro pools ram
  refine ⟨?_, fun e => create_eq_error_iff, ?_, ?_⟩
  · rw [← firstMistake?_eq_none_iff]
    constructor
    · rintro ⟨store, hcreate⟩
      exact (create_eq_ok hcreate).1
    · intro hnone
      have houtcome := create_outcome settings
      rw [hnone] at houtcome
      obtain ⟨store, hcreate, -⟩ := houtcome
      exact ⟨store, hcreate⟩
  · intro cause hcreate
    exact cause_of_mistake (create_eq_error_iff.1 hcreate)
  · intro store hcreate
    have hfresh := fresh_create hcreate
    have heven := (create_eq_ok hcreate).2
    obtain ⟨hierarchy, hhierarchy, hrooms⟩ := heven.rooms
    refine ⟨hfresh.pools.trans hfresh.shards, heven,
      ⟨hierarchy, hhierarchy, ?_⟩, ?_⟩
    · intro shard hshard
      refine ⟨?_, hrooms shard hshard⟩
      rw [poolOf?, if_pos (hshard.trans_eq hfresh.shards.symm)]
    · intro calls call reached
      have hreached : reached.Sharded settings := sharded_run hcreate calls
      exact ⟨hreached.pools.trans hreached.shards, hreached.pool_lt call,
        engine_answer reached call, hreached.answer_ne_engine call⟩

/-- One pool more than there can be is refused; two pools have half of a mebibyte
each, and a read of one meets no error of the engine. -/
theorem settings_that_make_a_store_smallSettings :
    create { smallSettings with poolCount := 65 } =
      .error (.engine (.tooManyPools 64)) ∧
    ∃ store, create smallSettings = .ok store ∧
      store.engine.room? 1 = some (524288, 134217728000) ∧
      let reached := (store.run [.write [1] [⟨[2], [3]⟩]]).1
      reached.engine.pools.size = 2 ∧
        ∀ cause, (reached.answer (.read 7 [1] none)).1.error? ≠
          some (.engine cause) := by
  obtain ⟨-, herrors, -⟩ :=
    settings_that_make_a_store { smallSettings with poolCount := 65 }
  obtain ⟨hmade, -, -, hstores⟩ := settings_that_make_a_store smallSettings
  obtain ⟨store, hcreate⟩ :=
    hmade.2 ⟨⟨_, rfl⟩, by decide, by decide, by decide⟩
  obtain ⟨-, -, ⟨hierarchy, hhierarchy, hrooms⟩, hruns⟩ := hstores store hcreate
  cases hhierarchy
  obtain ⟨hsize, -, -, hnoError⟩ :=
    hruns [.write [1] [⟨[2], [3]⟩]] (.read 7 [1] none)
  exact ⟨(herrors _).2 rfl, store, hcreate, (hrooms 1 (by decide)).2, hsize,
    hnoError⟩

end Store

end TieredCache
