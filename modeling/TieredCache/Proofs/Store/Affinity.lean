import Mathlib
import TieredCache.Proofs.Store.Writes

/-!
# Reads by the shards of workers

A worker whose reads go to one shard reads a key of that shard as it would by
key, and finds no other.  With a single shard the two ways to read cannot be
told apart.
-/

namespace TieredCache

def StoreCall.reader? : StoreCall → Option Nat
  | .read worker _ _ => some worker
  | .scan worker _ _ _ => some worker
  | .write _ _ => none
  | .delete _ => none
  | .register _ => none

namespace Store

variable {store : Store} {settings : Settings} {key : Bytes}
  {worker shard : Nat}

/-! ## The other way to read -/

def readingBy (store : Store) (readRouting : ReadRouting) : Store :=
  { store with readRouting }

theorem create_readingBy (settings : Settings) (readRouting : ReadRouting) :
    create { settings with readRouting } =
      (create settings).map fun store => store.readingBy readRouting := by
  have hram : ramBytes { settings with readRouting } = ramBytes settings := rfl
  simp only [create, hram]
  cases settings.tier.hierarchy with
  | error e => rfl
  | ok hierarchy =>
      cases Routing.create settings.poolCount.toNat
          settings.maxWorkers.toNat with
      | error e => rfl
      | ok routing =>
          cases Scanner.create settings.scan with
          | error e => rfl
          | ok scanner =>
              cases ramBytes settings with
              | error e => rfl
              | ok bytes =>
                  simp only
                  cases createEngine bytes routing.shardCount hierarchy <;> rfl

theorem findIn_readingBy (store : Store) (readRouting : ReadRouting)
    (shard : Nat) (key : Bytes) (names : Option (List Bytes)) :
    (store.readingBy readRouting).findIn shard key names =
      ((store.findIn shard key names).1,
        (store.findIn shard key names).2.readingBy readRouting) := by
  simp only [findIn, readingBy]
  rcases store.engine.find shard key with ⟨e | _ | row, engine⟩
  · rfl
  · rfl
  · cases hshown : present store.fieldCount row names <;> simp [hshown]

theorem write_readingBy (store : Store) (readRouting : ReadRouting)
    (key : Bytes) (record : Record) :
    (store.readingBy readRouting).write key record =
      ((store.write key record).1,
        (store.write key record).2.readingBy readRouting) := by
  simp only [write, readingBy]
  cases Row.encode record with
  | error e => rfl
  | ok row =>
      simp only
      rcases store.engine.allocate (store.routing.shardOfKey key) key
        row.length with e | _ | handle <;> rfl

theorem register_readingBy (store : Store) (readRouting : ReadRouting)
    (worker : Nat) :
    (store.readingBy readRouting).register worker =
      ((store.register worker).1,
        (store.register worker).2.readingBy readRouting) := by
  simp only [register, readingBy]
  cases store.routing.register worker
    (worker % store.routing.shardCount) <;> rfl

theorem read_readingBy_key {shardOf : Bytes → Nat}
    (hshardOf : store.readShard worker = .ok shardOf)
    (hkey : store.routing.shardOfKey key = shardOf key)
    (names : Option (List Bytes)) :
    (store.readingBy .key).read worker key names =
      ((store.read worker key names).1,
        (store.read worker key names).2.readingBy .key) := by
  simp only [read, hshardOf, ← hkey]
  exact findIn_readingBy store .key _ key names

theorem scan_readingBy_key
    (hshardOf : store.readShard worker = .ok store.routing.shardOfKey)
    (start : Bytes) (count : Nat) (names : Option (List Bytes)) :
    (store.readingBy .key).scan worker start count names =
      ((store.scan worker start count names).1,
        (store.scan worker start count names).2.readingBy .key) := by
  have hagree : Scanner.Agree
      (fun next key =>
        Store.findIn next (store.routing.shardOfKey key) key names)
      (fun next key =>
        Store.findIn next (store.routing.shardOfKey key) key names)
      fun next next' => next' = next.readingBy .key := by
    rintro next _ key rfl
    have hsame := findIn_readingBy next .key (store.routing.shardOfKey key) key
      names
    exact ⟨(congrArg Prod.fst hsame).symm, congrArg Prod.snd hsame⟩
  obtain ⟨hrows, hnext⟩ :=
    hagree.scan store.scanner Memory.listSize start count rfl
  simp only [scan, hshardOf]
  exact Prod.ext hrows.symm hnext

theorem answer_readingBy_key {call : StoreCall}
    (hreader : ∀ worker, call.reader? = some worker →
      store.readShard worker = .ok store.routing.shardOfKey) :
    (store.readingBy .key).answer call =
      ((store.answer call).1, (store.answer call).2.readingBy .key) := by
  cases call with
  | write key record => simp only [answer, write_readingBy]
  | delete key => rfl
  | read worker key names =>
      simp only [answer, read_readingBy_key (hreader worker rfl) rfl]
  | scan worker start count names =>
      simp only [answer, scan_readingBy_key (hreader worker rfl)]
  | register worker => simp only [answer, register_readingBy]

theorem Sharded.readShard (h : store.Sharded settings)
    (haffinity : settings.readRouting = .affinity)
    (hworker : store.routing.shardOfWorker worker = .ok shard) :
    store.readShard worker = .ok fun _ => shard := by
  simp [Store.readShard, h.readRouting, haffinity, hworker]

theorem Sharded.lt_of_shardOfWorker (h : store.Sharded settings)
    (hworker : store.routing.shardOfWorker worker = .ok shard) :
    shard < store.routing.shardCount :=
  h.lawful worker shard (Routing.shardOfWorker_eq_ok_iff.1 hworker)

theorem Sharded.read_other (h : store.Sharded settings)
    (haffinity : settings.readRouting = .affinity)
    (hworker : store.routing.shardOfWorker worker = .ok shard)
    (hkey : store.routing.shardOfKey key ≠ shard)
    (names : Option (List Bytes)) :
    (store.read worker key names).1 = .ok none := by
  obtain ⟨ledgers, hkeeps, hplaces⟩ := h.keys
  have hlt : shard < store.engine.pools.size := by
    rw [h.pools]
    exact h.lt_of_shardOfWorker hworker
  have habsent : (ledgers shard).value? key = none :=
    Ledger.value?_eq_none_iff.2 fun hmem => hkey (hplaces shard key hmem)
  simp only [Store.read, h.readShard haffinity hworker]
  rw [findIn_fst hkeeps hlt, habsent]

/-! ## A single shard -/

/-- Whoever reads in some calls is bound to a shard by then. -/
def ReadersBound (store : Store) (calls : List StoreCall) : Prop :=
  ∀ before call, before ++ [call] <+: calls →
    ∀ worker, call.reader? = some worker →
      ∃ shard, (store.run before).1.routing.shardOfWorker worker = .ok shard

theorem ReadersBound.of_prefix {before calls : List StoreCall}
    (h : store.ReadersBound calls) (hbefore : before <+: calls) :
    store.ReadersBound before :=
  fun first call hfirst => h first call (hfirst.trans hbefore)

theorem Sharded.readShard_of_single (h : store.Sharded settings)
    (haffinity : settings.readRouting = .affinity)
    (hsingle : settings.poolCount.toNat = 1)
    (hworker : store.routing.shardOfWorker worker = .ok shard) :
    store.readShard worker = .ok store.routing.shardOfKey := by
  have hlt := h.lt_of_shardOfWorker hworker
  have hcount := h.shards
  have hsame : store.routing.shardOfKey = fun _ => shard := by
    funext key
    have := store.routing.shardOfKey_lt key
    omega
  rw [h.readShard haffinity hworker, hsame]

theorem answer_of_single (hcreate : create settings = .ok store)
    (haffinity : settings.readRouting = .affinity)
    (hsingle : settings.poolCount.toNat = 1) {calls before : List StoreCall}
    (hcalls : store.ReadersBound calls) {call : StoreCall}
    (hbefore : before ++ [call] <+: calls) :
    let reached := (store.run before).1
    (reached.readingBy .key).answer call =
      ((reached.answer call).1, (reached.answer call).2.readingBy .key) := by
  apply answer_readingBy_key
  intro worker hreader
  obtain ⟨shard, hworker⟩ := hcalls before call hbefore worker hreader
  exact (sharded_run hcreate before).readShard_of_single haffinity hsingle
    hworker

theorem run_readingBy_key (hcreate : create settings = .ok store)
    (haffinity : settings.readRouting = .affinity)
    (hsingle : settings.poolCount.toNat = 1) {calls : List StoreCall}
    (hcalls : store.ReadersBound calls) :
    ((store.readingBy .key).run calls).1 =
      (store.run calls).1.readingBy .key := by
  induction calls using List.reverseRecOn with
  | nil => rfl
  | append_singleton calls call ih =>
      have hanswer := answer_of_single hcreate haffinity hsingle hcalls
        (List.prefix_refl _)
      have hbefore := ih (hcalls.of_prefix (List.prefix_append calls [call]))
      rw [run_concat_fst, run_concat_fst, hbefore, hanswer]

/-! ## Affinity -/

/-- After any calls the items of each pool are of its shard.  So reads that go
to the shards of workers are reads by key where a key is of that shard, and find
nothing elsewhere; with a single shard and bound readers all calls are answered
as they are by key, and leave the same engine. -/
theorem affinity_reads_within_shard
    (hcreate : create settings = .ok store) (calls : List StoreCall) :
    let reached := (store.run calls).1
    (∀ shard (pool : Pool), reached.engine.pools[shard]? = some pool →
      ∀ key value, pool.Stores key value →
        reached.routing.shardOfKey key = shard ∧
          shard < settings.poolCount.toNat) ∧
    (settings.readRouting = .affinity → ∀ worker shard,
      reached.routing.shardOfWorker worker = .ok shard → ∀ key names,
        let byWorker := reached.read worker key names
        let byKey := (reached.readingBy .key).read worker key names
        (reached.routing.shardOfKey key = shard →
          byWorker.1 = byKey.1 ∧ byWorker.2.engine = byKey.2.engine) ∧
        (reached.routing.shardOfKey key ≠ shard → byWorker.1 = .ok none)) ∧
    (settings.readRouting = .affinity → settings.poolCount = 1 →
      store.ReadersBound calls →
        ∃ keyed, create { settings with readRouting := .key } = .ok keyed ∧
          (∀ before call, before ++ [call] <+: calls →
            ((store.run before).1.answer call).1 =
              ((keyed.run before).1.answer call).1) ∧
          ∀ before, before <+: calls →
            (store.run before).1.engine = (keyed.run before).1.engine) := by
  intro reached
  have h : reached.Sharded settings := sharded_run hcreate calls
  refine ⟨?_, ?_, ?_⟩
  · intro shard pool hpool key value hstores
    exact h.shardOfKey_of_stores hpool hstores
  · intro haffinity worker shard hworker key names byWorker byKey
    constructor
    · intro hkey
      have hsame : byKey = (byWorker.1, byWorker.2.readingBy .key) :=
        read_readingBy_key (h.readShard haffinity hworker) hkey names
      rw [hsame]
      exact ⟨rfl, rfl⟩
    · intro hkey
      exact h.read_other haffinity hworker hkey names
  · intro haffinity hcount hbound
    have hsingle : settings.poolCount.toNat = 1 := by rw [hcount]; rfl
    have hsame : ∀ before, before <+: calls →
        ((store.readingBy .key).run before).1 =
          (store.run before).1.readingBy .key := fun before hbefore =>
      run_readingBy_key hcreate haffinity hsingle (hbound.of_prefix hbefore)
    refine ⟨store.readingBy .key, ?_, ?_, ?_⟩
    · rw [create_readingBy, hcreate]
      rfl
    · intro before call hbefore
      rw [hsame before ((List.prefix_append before [call]).trans hbefore),
        answer_of_single hcreate haffinity hsingle hbound hbefore]
    · intro before hbefore
      rw [hsame before hbefore]
      rfl

def affinitySettings (poolCount : UInt64) : Settings where
  cacheSizeMb := 1
  poolCount
  readRouting := .affinity
  fieldCount := 1

def oneReader : List StoreCall :=
  [.register 0, .write [5] [⟨[2], [3]⟩], .write [1] [⟨[2], [4]⟩]]

theorem run_oneReader (store : Store) :
    (store.run oneReader).1 =
      ((store.run [.register 0, .write [5] [⟨[2], [3]⟩]]).1.answer
        (.write [1] [⟨[2], [4]⟩])).2 :=
  run_concat_fst store [.register 0, .write [5] [⟨[2], [3]⟩]] _

theorem shardOfWorker_oneReader (hcreate : create settings = .ok store)
    (hworker : 0 < settings.maxWorkers.toNat) :
    (store.run oneReader).1.routing.shardOfWorker 0 = .ok 0 := by
  have hbound : (store.run [.register 0]).1.routing.shardOfWorker 0 =
      .ok 0 := by
    have hregister := (fresh_create hcreate).shardOfWorker_register hworker
    rwa [Nat.zero_mod] at hregister
  have hwritten := shardOfWorker_answer hbound (.write [5] [⟨[2], [3]⟩])
  rw [← run_concat_fst] at hwritten
  rw [run_oneReader]
  exact shardOfWorker_answer hwritten _

theorem findIn_oneReader (hcreate : create (affinitySettings 2) = .ok store) :
    ((store.run oneReader).1.findIn
      ((store.run oneReader).1.routing.shardOfKey [1]) [1] none).1 =
      .ok (some [⟨[2], [4]⟩]) := by
  have hbefore := sharded_run hcreate [.register 0, .write [5] [⟨[2], [3]⟩]]
  have hwritten := hbefore.write_fst [1] [⟨[2], [4]⟩]
  have hfits : ∀ field ∈ ([⟨[2], [4]⟩] : Record), Row.FieldFits field := by
    intro field hfield
    cases List.mem_singleton.1 hfield
    exact ⟨by decide, by decide⟩
  have haccepted : refusal? (poolBytes (affinitySettings 2))
      ((store.run [.register 0, .write [5] [⟨[2], [3]⟩]]).1.routing.shardOfKey
        [1]) [1] [⟨[2], [4]⟩] = none :=
    refusal?_eq_none_iff.2 ⟨hfits, by decide⟩
  rw [haccepted] at hwritten
  obtain ⟨-, hsame, -, hfound⟩ := hbefore.written hwritten
  obtain ⟨-, hfields, -⟩ :=
    settled_run store [.register 0, .write [5] [⟨[2], [3]⟩]]
  rw [(fresh_create hcreate).fields] at hfields
  rw [run_oneReader]
  exact (hfound none).trans (by rw [hsame, hfields]; rfl)

/-- A worker reads the key of its shard as by key and does not find the one that
was written to the other; with a single shard it reads that one as by key. -/
theorem affinity_reads_within_shard_oneReader :
    (∃ store, create (affinitySettings 2) = .ok store ∧
      let reached := (store.run oneReader).1
      (reached.read 0 [1] none).1 = .ok (some [⟨[2], [4]⟩]) ∧
        ((reached.readingBy .key).read 0 [1] none).1 =
          .ok (some [⟨[2], [4]⟩]) ∧
        (reached.read 0 [5] none).1 = .ok none) ∧
    ∃ store keyed, create (affinitySettings 1) = .ok store ∧
      create { affinitySettings 1 with readRouting := .key } = .ok keyed ∧
      let calls := oneReader ++ [.read 0 [5] none]
      ((store.run oneReader).1.answer (.read 0 [5] none)).1 =
          ((keyed.run oneReader).1.answer (.read 0 [5] none)).1 ∧
        (store.run calls).1.engine = (keyed.run calls).1.engine := by
  constructor
  · obtain ⟨store, hcreate⟩ : ∃ store,
        create (affinitySettings 2) = .ok store := ⟨_, rfl⟩
    have hworker := shardOfWorker_oneReader hcreate (by decide)
    have h := sharded_run hcreate oneReader
    have hown : (store.run oneReader).1.routing.shardOfKey [1] = 0 := by
      rw [Routing.shardOfKey, h.shards]
      decide
    have hother : (store.run oneReader).1.routing.shardOfKey [5] ≠ 0 := by
      rw [Routing.shardOfKey, h.shards]
      decide
    have hread : ((store.run oneReader).1.read 0 [1] none).1 =
        .ok (some [⟨[2], [4]⟩]) := by
      have hfound := findIn_oneReader hcreate
      rw [hown] at hfound
      simp only [Store.read, h.readShard rfl hworker]
      exact hfound
    obtain ⟨-, hreads, -⟩ := affinity_reads_within_shard hcreate oneReader
    have hsame := ((hreads rfl 0 0 hworker [1] none).1 hown).1
    exact ⟨store, hcreate, hread, hsame.symm.trans hread,
      (hreads rfl 0 0 hworker [5] none).2 hother⟩
  · obtain ⟨store, hcreate⟩ : ∃ store,
        create (affinitySettings 1) = .ok store := ⟨_, rfl⟩
    have hworker := shardOfWorker_oneReader hcreate (by decide)
    have hbound : store.ReadersBound (oneReader ++ [.read 0 [5] none]) := by
      intro before call hbefore worker hreader
      rcases List.prefix_concat_iff.1 hbefore with hlast | hearlier
      · obtain ⟨rfl, hcall⟩ := List.append_inj' hlast rfl
        cases hcall
        cases hreader
        exact ⟨0, hworker⟩
      · have hmem : call ∈ oneReader := hearlier.subset (by simp)
        simp only [oneReader, List.mem_cons, List.not_mem_nil, or_false] at hmem
        rcases hmem with rfl | rfl | rfl <;> cases hreader
    obtain ⟨-, -, hsingle⟩ := affinity_reads_within_shard hcreate
      (oneReader ++ [.read 0 [5] none])
    obtain ⟨keyed, hkeyed, hanswers, hengines⟩ := hsingle rfl rfl hbound
    exact ⟨store, keyed, hcreate, hkeyed,
      hanswers oneReader _ (List.prefix_refl _),
      hengines _ (List.prefix_refl _)⟩

end Store

end TieredCache
