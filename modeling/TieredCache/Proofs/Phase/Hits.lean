import Mathlib
import TieredCache.Proofs.Phase.Loading
import TieredCache.Proofs.Phase.Room

/-!
# Runs that find everything

One worker loads the records and then runs.  Every number that has been taken
has its record in the store, unless the engine has dropped something: an insert
takes the next number and stores its record at once.  So where reads go to the
shards of keys and nothing is removed, every operation finds what it is about.
-/

namespace TieredCache

def Workload.Numbered (workload : Workload) (count : Nat) (key : Bytes) :
    Prop :=
  ∃ id, id < count ∧ key = workload.key id

theorem Workload.numbered_succ {workload : Workload} {count : Nat}
    {key : Bytes} (h : workload.Numbered (count + 1) key) :
    workload.Numbered count key ∨ key = workload.key count := by
  obtain ⟨id, hid, rfl⟩ := h
  by_cases hlast : id = count
  · right
    rw [hlast]
  · left
    exact ⟨id, by omega, rfl⟩

/-! ## Operations -/

namespace Bench

variable {bench : Bench} {base : Workload} {room claims worker : Nat}
  {listed : Bytes → Prop}

theorem Ready.nextInsert_eq (h : bench.Ready base room claims listed)
    (hsum : base.recordCount.toNat + base.operationCount.toNat < 2 ^ 64) :
    bench.workload.nextInsert.toNat = base.recordCount.toNat + claims := by
  have hclaims := h.claims_le
  rw [h.workload, Workload.toNat_nextInsert_after, h.sound.fresh]
  exact Nat.mod_eq_of_lt (by omega)

variable {γ : Type} [Draws γ]

theorem Ready.write_found (h : bench.Ready base room claims listed)
    (haccepted : ∀ shard, base.answer room shard = .ok true) {id : Nat}
    (hkey : (base.key id).length = base.keyLength) (g : γ) :
    (bench.write id g).result = .ok true ∧
      bench.store.Reaches (bench.write id g).bench.store base room
        fun key => listed key ∨ key = base.key id := by
  obtain ⟨hresult, -, hdone⟩ := h.write hkey g
  rw [haccepted] at hresult
  exact ⟨hresult, hdone hresult⟩

section Found

variable
  (hready : bench.Ready base room claims
    (base.Numbered bench.workload.nextInsert.toNat))
  (haccepted : ∀ shard, base.answer room shard = .ok true)

include hready haccepted

theorem Ready.update_found
    (hfull : bench.Full base (base.Numbered bench.workload.nextInsert.toNat))
    (g : γ) :
    (bench.update g).result = .ok true ∧
      bench.store.Reaches (bench.update g).bench.store base room
        (base.Numbered bench.workload.nextInsert.toNat) := by
  unfold Bench.update
  obtain ⟨id, g', hid, heq⟩ := hfull.withExisting g fun id g => bench.write id g
  obtain ⟨hkey, -⟩ := hready.key_of_lt hid
  obtain ⟨hresult, hnext⟩ := hready.write_found haccepted hkey g'
  rw [heq]
  exact ⟨hresult, hnext.mono fun key => .inl⟩

theorem Ready.insert_found
    (hsum : base.recordCount.toNat + base.operationCount.toNat < 2 ^ 64)
    (hclaims : claims < base.operationCount.toNat) (g : γ) :
    (bench.insert g).result = .ok true ∧
      bench.store.Reaches (bench.insert g).bench.store base room
        (base.Numbered (bench.insert g).bench.workload.nextInsert.toNat) := by
  obtain ⟨hclaimed, hkey⟩ := hready.claim hclaims
  obtain ⟨hresult, hnext⟩ := hclaimed.write_found haccepted hkey g
  have hbefore := hready.nextInsert_eq hsum
  have hafter := hclaimed.nextInsert_eq hsum
  have hcount : (bench.insert g).bench.workload.nextInsert.toNat =
      bench.workload.nextInsert.toNat + 1 := by
    rw [Bench.insert, workload_write, hbefore]
    exact hafter
  rw [hcount]
  refine ⟨hresult, hnext.mono ?_⟩
  intro key hnumbered
  exact Workload.numbered_succ hnumbered

theorem Ready.perform_found
    (hfull : bench.Full base (base.Numbered bench.workload.nextInsert.toNat))
    (hsum : base.recordCount.toNat + base.operationCount.toNat < 2 ^ 64)
    (hclaims : claims < base.operationCount.toNat)
    (hworker : worker ∈ bench.store.routing.bindings) {operation : Operation}
    (hoperation : operation ≠ .delete) (g : γ) :
    bench.store.Reaches (bench.perform worker operation g).bench.store base
        room (base.Numbered
          (bench.perform worker operation g).bench.workload.nextInsert.toNat) ∧
      (bench.store.nvmEvictions = 0 → ∀ found,
        (bench.perform worker operation g).result = .ok found →
          found = true) := by
  have hsame := bench.workload_perform worker operation g
  cases operation with
  | read =>
      obtain ⟨found, hresult, hnext, hfound⟩ := hready.read hworker g
      rw [hsame, if_neg (by decide)]
      refine ⟨hnext, fun hkept other hother => ?_⟩
      cases hresult.symm.trans hother
      exact hfound hfull hkept
  | update =>
      obtain ⟨hresult, hnext⟩ := hready.update_found haccepted hfull g
      rw [hsame, if_neg (by decide)]
      refine ⟨hnext, fun _ found hfound => ?_⟩
      cases hresult.symm.trans hfound
      rfl
  | scan =>
      obtain ⟨hnext, -, hfound⟩ := hready.scan hworker g
      rw [hsame, if_neg (by decide)]
      exact ⟨hnext, fun hkept found hresult =>
        hfound found hresult hfull hkept⟩
  | insert =>
      obtain ⟨hresult, hnext⟩ := hready.insert_found haccepted hsum hclaims g
      refine ⟨hnext, fun _ found hfound => ?_⟩
      cases hresult.symm.trans hfound
      rfl
  | delete => exact absurd rfl hoperation

end Found

/-- Where nothing but a drop can keep a record from being found. -/
structure Findable (first : Bench) (room : Nat) : Prop where
  readRouting : first.store.readRouting = .key
  lookups : 0 < first.store.scanner.lookupLimit
  records : 0 < first.workload.recordCount.toNat
  sum : first.workload.recordCount.toNat +
    first.workload.operationCount.toNat < 2 ^ 64
  mix : ∀ entry ∈ first.workload.mix, entry.operation ≠ .delete
  accepted : ∀ shard, first.workload.answer room shard = .ok true

end Bench

namespace Execution

variable {γ : Type} {execution : Execution γ} {first : Bench}
  {room index : Nat} {worker : Worker γ} {task : Task}

/-! ## Loads and runs by one worker -/

structure Storing (execution : Execution γ) (first : Bench) (room : Nat) :
    Prop where
  underway : execution.Underway first room
  phase : execution.phase = .load
  threads : execution.threads = 1
  holds : execution.bench.store.Holds first.workload room
    (first.workload.Numbered (execution.begunBy 0))

theorem Storing.holds_all (h : execution.Storing first room)
    (hover : execution.Over)
    (hfailure : ∀ (index : Nat) (worker : Worker γ),
      execution.workers[index]? = some worker → worker.failure = none) :
    execution.bench.store.Holds first.workload room
      (first.workload.Numbered first.workload.recordCount.toNat) := by
  have hthreads : 0 < execution.threads := by
    rw [h.threads]
    exact Nat.one_pos
  have hall := h.underway.orderly.begun_eq hover hthreads hfailure
  rw [h.phase, begun, h.threads, Finset.sum_range_one] at hall
  have hholds := h.holds
  rw [hall] at hholds
  exact hholds

structure Finding (execution : Execution γ) (first : Bench) (room : Nat) :
    Prop where
  underway : execution.Underway first room
  phase : execution.phase = .run
  holds : execution.bench.store.Holds first.workload room
    (first.workload.Numbered execution.bench.workload.nextInsert.toNat)
  found : execution.bench.store.nvmEvictions = 0 → ∀ operation,
    (execution.tally.of operation).notFound = 0

theorem Finding.ready (h : execution.Finding first room) :
    ∃ claims ≤ execution.claimLimit,
      execution.bench.Ready first.workload room claims
        (first.workload.Numbered
          execution.bench.workload.nextInsert.toNat) := by
  obtain ⟨claims, hclaims, hready⟩ := h.underway.ready
  exact ⟨claims, hclaims, { hready with store := h.holds }⟩

theorem Finding.full (h : execution.Finding first room)
    (hfindable : first.Findable room) :
    execution.bench.Full first.workload
      (first.workload.Numbered execution.bench.workload.nextInsert.toNat) := by
  have hrecords := hfindable.records
  obtain ⟨claims, -, hready⟩ := h.ready
  refine ⟨?_, ?_, ?_, fun id hid => ⟨id, hid, rfl⟩⟩
  · rw [h.underway.store.readRouting, hfindable.readRouting]
  · rw [h.underway.store.scanner]
    exact hfindable.lookups
  · rw [hready.nextInsert_eq hfindable.sum]
    omega

theorem Underway.findable (h : execution.Underway first room)
    (hphase : execution.phase = .load) (hfindable : first.Findable room) :
    execution.bench.Findable room := by
  have hworkload := h.workload_of_load hphase
  refine ⟨?_, ?_, ?_, ?_, ?_, ?_⟩
  · rw [h.store.readRouting]
    exact hfindable.readRouting
  · rw [h.store.scanner]
    exact hfindable.lookups
  · rw [hworkload]
    exact hfindable.records
  · rw [hworkload]
    exact hfindable.sum
  · rw [hworkload]
    exact hfindable.mix
  · rw [hworkload]
    exact hfindable.accepted

variable [Draws γ]

/-! ## Steps -/

theorem Storing.perform (h : execution.Storing first room)
    (haccepted : ∀ shard, first.workload.answer room shard = .ok true)
    (hnext : execution.next? index = some (worker, task)) :
    (execution.perform worker task).Storing first room := by
  obtain ⟨hworker, -⟩ := Execution.next?_eq_some_iff.1 hnext
  obtain ⟨id, rfl, hid, hlt⟩ := h.underway.load_lt hnext h.phase
  have hindex : index = 0 := by
    have hbelow := h.underway.orderly.lt_threads hworker
    rw [h.threads] at hbelow
    omega
  subst hindex
  -- One worker loads number after number, so the next is the count so far.
  have hcount : id = execution.begunBy 0 := by
    rw [hid, begunBy_eq hworker, h.threads]
    omega
  obtain ⟨claims, -, hunlisted⟩ := h.underway.ready
  have hready : execution.bench.Ready first.workload room claims
      (first.workload.Numbered (execution.begunBy 0)) :=
    { hunlisted with store := h.holds }
  obtain ⟨-, hreaches⟩ := hready.write_found haccepted
    (h.underway.key_of_load hlt) worker.generator
  refine ⟨h.underway.perform hnext, ?_, ?_, ?_⟩
  · exact (phase_perform ..).trans h.phase
  · exact (threads_perform ..).trans h.threads
  · rw [bench_perform, h.underway.orderly.begunBy_perform hworker, if_pos rfl]
    apply hreaches.holds.mono
    intro key hkey
    rw [hcount]
    exact Workload.numbered_succ hkey

theorem Finding.attempt (h : execution.Finding first room)
    (hfindable : first.Findable room)
    (hnext : execution.next? index = some (worker, task)) :
    execution.bench.store.Reaches
        (execution.attempt worker task).2.bench.store first.workload room
        (first.workload.Numbered
          (execution.attempt worker task).2.bench.workload.nextInsert.toNat) ∧
      (execution.bench.store.nvmEvictions = 0 → ∀ found,
        (execution.attempt worker task).2.result = .ok found →
          found = true) := by
  obtain ⟨rfl, hbound, hlimit⟩ := h.underway.run_next hnext h.phase
  obtain ⟨claims, hclaims, hready⟩ := h.ready
  have hmix : execution.bench.workload.mix = first.workload.mix := by
    rw [hready.workload]
    rfl
  have hoperation :
      (execution.bench.workload.nextOperation worker.generator).1 ≠
        .delete := by
    apply Mix.pick_ne _ (by decide)
    rw [hmix]
    exact hfindable.mix
  exact hready.perform_found hfindable.accepted (h.full hfindable)
    hfindable.sum (hclaims.trans_lt hlimit) hbound hoperation _

theorem Finding.perform (h : execution.Finding first room)
    (hfindable : first.Findable room)
    (hnext : execution.next? index = some (worker, task)) :
    (execution.perform worker task).Finding first room := by
  obtain ⟨hreaches, hresult⟩ := h.attempt hfindable hnext
  refine ⟨h.underway.perform hnext, ?_, ?_, ?_⟩
  · exact (phase_perform ..).trans h.phase
  · rw [bench_perform]
    exact hreaches.holds
  · -- Drops only add up: without one after the turn, there was none before it.
    intro hnone
    rw [bench_perform] at hnone
    have hbefore : execution.bench.store.nvmEvictions = 0 := by
      have hgrown := hreaches.nvmEvictions
      omega
    intro operation
    have hold := h.found hbefore operation
    rw [of_tally_perform]
    split
    · split
      · exact hold
      · rename_i hmissed
        cases hresult hbefore _ hmissed
      · exact hold
      · exact hold
    · exact hold

/-! ## A load and a run -/

theorem Underway.storing_turns (h : execution.Underway first room)
    (hphase : execution.phase = .load) (hthreads : execution.threads = 1)
    (hbegun : execution.begunBy 0 = 0)
    (haccepted : ∀ shard, first.workload.answer room shard = .ok true)
    (order : List Nat) : (execution.turns order).Storing first room := by
  apply turns_keep (motive := fun reached => reached.Storing first room)
  · intro reached index worker task hreached hnext
    exact hreached.perform haccepted hnext
  · refine ⟨h, hphase, hthreads, h.store.holds.mono ?_⟩
    rintro key ⟨id, hid, -⟩
    rw [hbegun] at hid
    exact Nat.not_lt_zero id hid

theorem finding_run {bench : Bench} (hsound : bench.workload.Sound)
    (hfindable : bench.Findable room)
    (hholds : bench.store.Holds bench.workload room
      (bench.workload.Numbered bench.workload.recordCount.toNat))
    (threads : Nat) (seed : UInt64) (order : List Nat) :
    ((start γ .run bench threads seed).turns order).Finding bench room := by
  obtain ⟨hreaches, -⟩ :=
    reaches_joined (γ := γ) .run threads seed hholds threads
  have hunderway := (underway_start (γ := γ) .run threads seed hsound
    (hholds.mono fun _ => False.elim)).1
  apply turns_keep (motive := fun reached => reached.Finding bench room)
  · intro reached index worker task hreached hnext
    exact hreached.perform hfindable hnext
  · refine ⟨hunderway, phase_start, ?_, ?_⟩
    · rw [workload_start, hsound.fresh]
      exact hreaches.holds
    · intro _ operation
      rw [tally_start]
      cases operation <;> rfl

variable {properties : Properties} {settings : Settings} {bench loaded : Bench}
  {report : Report}

theorem accepted_of_load (hbuilt : bench.Built properties settings)
    (hrecords : 1 ≤ bench.workload.recordCount.toNat)
    (hworkers : 1 ≤ settings.maxWorkers.toNat) {seed : UInt64}
    (hload : bench.execute γ .load 1 seed = (.ok report, loaded))
    (hstored : ∀ counts, (.insert, counts) ∈ report.rows →
      counts.failed = 0) :
    (∀ shard, bench.workload.answer (Store.poolBytes settings) shard =
      .ok true) ∧
      ∃ order, ((start γ .load bench 1 seed).turns order).Over ∧
        loaded = ((start γ .load bench 1 seed).turns order).bench := by
  obtain ⟨order, hover, hexecute⟩ :=
    execute_eq_turns (γ := γ) .load bench 1 seed
  obtain ⟨outcome, -, -, haccepted, hresult⟩ :=
    exists_loadOutcome hbuilt hrecords
  rw [hexecute, hresult Nat.one_pos hworkers hover, Prod.mk.injEq] at hload
  obtain ⟨houtcome, hbench⟩ := hload
  refine ⟨?_, order, hover, hbench.symm⟩
  cases outcome with
  | stored => exact haccepted rfl
  | refused =>
      cases houtcome
      have hnone := hstored _ List.mem_cons_self
      simp only at hnone
      omega
  | aborted shard size => cases houtcome
  | cutShort => cases houtcome

/-- When one worker has loaded all records, a run by one worker comes to its end
unless a scan is cut short, which takes one for whose rows there can be no memory;
and if nothing has been dropped by then, all of its operations found what they
were about. -/
theorem run_finds_everything (hbuilt : bench.Built properties settings)
    (hrouting : settings.readRouting = .key)
    (hdelete : ∀ weight : Float,
      properties.readD Key.deleteProportion (0.0 : Float) = .ok weight →
        ¬0.0 < weight)
    (hrecords : 1 ≤ bench.workload.recordCount.toNat)
    (hworkers : 1 ≤ settings.maxWorkers.toNat)
    (hlookups : 1 ≤ settings.scan.lookupLimit.toNat)
    (hsum : bench.workload.recordCount.toNat +
      bench.workload.operationCount.toNat < 2 ^ 64)
    {seed : UInt64} (seed' : UInt64)
    (hload : bench.execute γ .load 1 seed = (.ok report, loaded))
    (hstored : ∀ counts, (.insert, counts) ∈ report.rows →
      counts.failed = 0) :
    ∃ result ran, loaded.execute γ .run 1 seed' = (result, ran) ∧
      (result = .error .cutShort ∧
          ¬bench.workload.ScansFit settings.scan.lookupLimit.toNat ∨
        ∃ report', result = .ok report' ∧
          (ran.store.engine.counters.nvmEvictions = 0 →
            report'.operations = bench.workload.operationCount.toNat ∧
            ∀ operation counts, (operation, counts) ∈ report'.rows →
              counts.notFound = 0 ∧ counts.failed = 0)) := by
  obtain ⟨hfresh, hsound, -⟩ := hbuilt.fresh
  obtain ⟨haccepted, order, hover, rfl⟩ :=
    accepted_of_load hbuilt hrecords hworkers hload hstored
  have hfindable : bench.Findable (Store.poolBytes settings) :=
    { readRouting := hfresh.readRouting.trans hrouting
      lookups := by rwa [hfresh.lookups]
      records := hrecords
      sum := hsum
      mix := Mix.ne_delete_of_ofProperties hbuilt.mix hdelete
      accepted := haccepted }
  have hlimit : 1 ≤ bench.store.routing.workerLimit := by rwa [hfresh.workers]
  obtain ⟨hloading, hfailure⟩ := load_start (γ := γ) hbuilt hworkers seed
  have hloaded := hloading.turns order
  have hworkload := hloaded.workload_of_load phase_loaded
  have hunstopped := (hloading.unrefused_turns haccepted
    (unrefused_start hfailure) order).unstopped (by rw [phase_loaded]; nofun)
  have hholds := (hloading.storing_turns phase_start threads_start
    (begunBy_start 0) haccepted order).holds_all hover hunstopped
  rw [← hworkload] at hsound hholds
  obtain ⟨order', hover', hexecute⟩ := execute_eq_turns (γ := γ) .run
    ((start γ .load bench 1 seed).turns order).bench 1 seed'
  have hfinding := finding_run (γ := γ) hsound
    (hloaded.findable phase_loaded hfindable) hholds 1 seed' order'
  have hrun := hloaded.unrefused_run phase_loaded haccepted hlimit seed' order'
  refine ⟨_, _, hexecute, ?_⟩
  rcases hrun.result with ⟨report', hresult⟩ | ⟨hcut, hlong⟩
  · refine .inr ⟨report', hresult, fun hnone => ?_⟩
    obtain ⟨hfailure', rfl⟩ := of_result_eq_ok hresult
    constructor
    · rw [Tally.operations_rows,
        hfinding.underway.orderly.total_eq hover' ?_ hfailure',
        hfinding.phase, hworkload]
      · rfl
      · rw [threads_turns, threads_start]
        exact Nat.one_pos
    · intro operation counts hrow
      refine ⟨?_, hrun.failed_of_result hresult hrow⟩
      rw [← Tally.of_eq_of_mem_rows hrow]
      exact hfinding.found hnone operation
  · rw [hworkload, hloaded.store.scanner, hfresh.lookups] at hlong
    exact .inl ⟨hcut, hlong⟩

theorem not_pos_of_default {weight : Float}
    (hdefault : properties.readD Key.deleteProportion (0.0 : Float) = .ok 0.0)
    (hweight : properties.readD Key.deleteProportion (0.0 : Float) =
      .ok weight) : ¬0.0 < weight := by
  rw [hdefault] at hweight
  cases hweight
  decide

theorem room_keyedProperties
    (hkeys : bench.workload.keys = ⟨Bytes.ofString "user", 12⟩)
    (hrecords : bench.workload.recordCount = 1000)
    (hoperations : bench.workload.operationCount = 1000)
    (hfields : bench.workload.fieldCount = 10)
    (hlength : bench.workload.fieldLength = 100) :
    (bench.workload.recordCount.toNat +
      bench.workload.operationCount.toNat) * bench.workload.itemSize ≤
        Store.poolBytes Bench.keyedSettings := by
  have hrow := bench.workload.rowSize_le
  rw [hfields, hlength] at hrow
  have hkey : bench.workload.keyLength = 16 := by
    unfold Workload.keyLength
    rw [hkeys]
    rfl
  have hpool : Store.poolBytes Bench.keyedSettings = 134217728 := rfl
  rw [hrecords, hoperations, Workload.itemSize, hkey, hpool]
  change bench.workload.rowSize ≤ 1330 at hrow
  change (1000 + 1000) * _ ≤ _
  omega

/-- A thousand operations over the records of the defaults, for all of which there
is room. -/
theorem run_finds_everything_keyedProperties :
    ∃ bench loaded : Bench,
      bench.Built Bench.keyedProperties Bench.keyedSettings ∧
      bench.execute Generator .load 1 1 =
        (.ok ⟨.load, 1, [(.insert, { ok := 1000 })]⟩, loaded) ∧
      ∃ report ran, loaded.execute Generator .run 1 2 = (.ok report, ran) ∧
        ran.store.engine.counters.nvmEvictions = 0 ∧
        report.operations = 1000 ∧
        ∀ operation counts, (operation, counts) ∈ report.rows →
          counts.notFound = 0 ∧ counts.failed = 0 := by
  obtain ⟨bench, hbuilt, hkeys, hrecords, hoperations, hfields, hlength⟩ :=
    Bench.built_keyedProperties
  obtain ⟨order, hover, hload⟩ :=
    execute_eq_turns (γ := Generator) .load bench 1 1
  rw [load_counts_keyedProperties hbuilt hkeys hrecords hfields hlength
    Nat.one_pos (by decide) hover] at hload
  have hdefault : Bench.keyedProperties.readD Key.deleteProportion
      (0.0 : Float) = .ok 0.0 := by
    rw [Bench.keyedProperties_eq, Properties.readD_setAll_of_none rfl]
  obtain ⟨result, ran, hran, hresult⟩ :=
    run_finds_everything hbuilt rfl (fun _ => not_pos_of_default hdefault)
      (by rw [hrecords]; decide) (by decide) (by decide)
      (by rw [hrecords, hoperations]; decide) 2 hload (fun counts hcounts => by
        cases List.mem_singleton.1 hcounts
        rfl)
  have hfit : bench.workload.ScansFit
      Bench.keyedSettings.scan.lookupLimit.toNat := by
    have hlookups := Nat.min_le_right bench.workload.maxScanLength.toNat
      Bench.keyedSettings.scan.lookupLimit.toNat
    change _ ≤ 100 at hlookups
    unfold Workload.ScansFit
    omega
  have hroom :=
    room_keyedProperties hkeys hrecords hoperations hfields hlength
  have hnone : ran.store.engine.counters.nvmEvictions = 0 := by
    obtain ⟨order', -, hexecute⟩ := execute_eq_turns (γ := Generator) .run
      ((start Generator .load bench 1 1).turns order).bench 1 2
    rw [hexecute, Prod.mk.injEq] at hran
    rw [← hran.2]
    exact (nothing_dropped hbuilt hroom 1 1 1 2 order order').2
  rcases hresult with ⟨-, hlong⟩ | ⟨report, rfl, hfound⟩
  · exact absurd hfit hlong
  · obtain ⟨hcount, hrows⟩ := hfound hnone
    rw [hoperations] at hcount
    exact ⟨bench, _, hbuilt, hload, report, ran, hran, hnone, hcount, hrows⟩

/-! ## The longest scans -/

def longScanProperties : Properties :=
  Properties.empty.setAll
    [(Key.fieldCount, "1"), (Key.fieldLength, "1"), (Key.recordCount, "1"),
      (Key.operationCount, "1"), (Key.maxScanLength, "18446744073709551615"),
      (Key.readProportion, "0"), (Key.updateProportion, "0"),
      (Key.scanProportion, "1"), (Key.readRouting, "key"), (Key.keyWidth, "1"),
      (Key.lookupLimit, "18446744073709551615"), (Key.cacheSize, "1"),
      (Key.poolCount, "1")]

def longScanSettings : Settings :=
  { cacheSizeMb := 1, poolCount := 1, readRouting := .key
    scan := { width := 1, lookupLimit := 18446744073709551615 }
    fieldCount := 1 }

def longScanWorkload : Workload :=
  { table := "usertable", recordCount := 1, operationCount := 1
    fieldCount := 1, fieldLength := 1, maxScanLength := 18446744073709551615
    readAllFields := true, keys := ⟨Bytes.ofString "user", 1⟩
    mix := [⟨.scan, 0.0 + 1⟩], nextInsert := 1 }

theorem built_longScanProperties :
    ∃ bench : Bench, bench.Built longScanProperties longScanSettings ∧
      bench.workload = longScanWorkload := by
  have hsettings :
      Settings.ofProperties longScanProperties = .ok longScanSettings := by
    unfold longScanProperties
    simp only [Settings.ofProperties, TierSettings.ofProperties,
      Properties.readD_setAll, Properties.getD_setAll]
    rfl
  obtain ⟨store, hstore⟩ : ∃ store,
      Store.create longScanSettings = .ok store := ⟨_, rfl⟩
  have hmix : Mix.ofProperties longScanProperties =
      .ok longScanWorkload.mix := by
    unfold longScanProperties
    simp only [Mix.ofProperties, Mix.sources, Mix.readFrom,
      Properties.readD_setAll]
    rfl
  have hworkload : Workload.ofProperties longScanProperties
      ⟨Bytes.ofString "user", 1⟩ = .ok longScanWorkload := by
    have hone : Readable.read "1" = .ok (1 : UInt64) := rfl
    have hlast : Readable.read "18446744073709551615" =
        .ok (18446744073709551615 : UInt64) := rfl
    refine (Workload.ofProperties_of_reads
      (Properties.readD_setAll_of_some rfl hone _)
      (Properties.readD_setAll_of_some rfl hone _)
      (Properties.readD_setAll_of_some rfl hone _)
      (Properties.readD_setAll_of_some rfl hlast _) hmix
      (Properties.readD_setAll_of_some rfl hone _)
      (Properties.readD_setAll_of_none rfl _) (by decide) (by decide)
      (by decide)).trans ?_
    rw [Properties.getD_setAll]
    rfl
  exact ⟨⟨store, longScanWorkload⟩, ⟨hsettings, hworkload, hstore⟩, rfl⟩

theorem first_longScan :
    (longScanWorkload.nextOperation (Draws.ofSeed 1 : Generator)).1 = .scan ∧
      2 ^ 63 ≤ min (longScanWorkload.scanLength (longScanWorkload.existing?
        (longScanWorkload.nextOperation
          (Draws.ofSeed 1 : Generator)).2).2).1 (2 ^ 64 - 1) * 24 := by
  decide +kernel

theorem attempt_longScan {execution : Execution Generator}
    {worker : Worker Generator} (h : execution.Underway first room)
    (hphase : execution.phase = .run)
    (hworkload : execution.bench.workload = longScanWorkload)
    (hlookups : execution.bench.store.scanner.lookupLimit = 2 ^ 64 - 1)
    (hnext : execution.next? index = some (worker, task))
    (hgenerator : worker.generator = Draws.ofSeed 1) :
    (execution.attempt worker task).2.result = .error .cutShort := by
  obtain ⟨rfl, hbound, -⟩ := h.run_next hnext hphase
  obtain ⟨claims, -, hready⟩ := h.ready
  obtain ⟨hscan, hlong⟩ := first_longScan
  rw [← hworkload, ← hgenerator] at hscan hlong
  have hcut := hready.scan_cutShort hbound (by rw [hworkload]; decide)
    (execution.bench.workload.nextOperation worker.generator).2
    (by rw [hlookups]; exact hlong)
  unfold attempt
  simp only [hscan]
  exact hcut

/-- One record is loaded, and the run that scans it is cut short. -/
theorem longest_scan_ends_run :
    ∃ bench loaded : Bench, bench.Built longScanProperties longScanSettings ∧
      longScanSettings.readRouting = .key ∧
      (∀ weight : Float, longScanProperties.readD Key.deleteProportion
        (0.0 : Float) = .ok weight → ¬0.0 < weight) ∧
      1 ≤ bench.workload.recordCount.toNat ∧
      1 ≤ longScanSettings.maxWorkers.toNat ∧
      1 ≤ longScanSettings.scan.lookupLimit.toNat ∧
      bench.workload.recordCount.toNat +
        bench.workload.operationCount.toNat < 2 ^ 64 ∧
      bench.execute Generator .load 1 1 =
        (.ok ⟨.load, 1, [(.insert, { ok := 1 })]⟩, loaded) ∧
      (loaded.execute Generator .run 1 1).1 = .error .cutShort := by
  obtain ⟨bench, hbuilt, hworkload⟩ := built_longScanProperties
  obtain ⟨hfresh, -⟩ := hbuilt.fresh
  have hdefault : longScanProperties.readD Key.deleteProportion
      (0.0 : Float) = .ok 0.0 := by
    unfold longScanProperties
    rw [Properties.readD_setAll_of_none rfl]
  have haccepted : ∀ shard, bench.workload.answer
      (Store.poolBytes longScanSettings) shard = .ok true := by
    rw [hworkload]
    exact Workload.accepted_of_small (by decide) (by decide) rfl (by decide)
      (by decide)
  obtain ⟨order, hover, hload⟩ :=
    execute_eq_turns (γ := Generator) .load bench 1 1
  have hcounts := load_counts hbuilt (by rw [hworkload]; decide) Nat.one_pos
    (by decide) hover .ok fun shard failure => by
      rw [haccepted]
      rfl
  rw [hcounts, hworkload] at hload
  refine ⟨bench, _, hbuilt, rfl, fun _ => not_pos_of_default hdefault,
    by rw [hworkload]; decide, by decide, by decide,
    by rw [hworkload]; decide, hload, ?_⟩
  have hthreads : 1 ≤ longScanSettings.maxWorkers.toNat := by decide
  have hloaded := (load_start (γ := Generator) hbuilt hthreads 1).1.turns order
  obtain ⟨hstart, hfailure⟩ := hloaded.run_start phase_loaded 1 1
  have hsame := hloaded.workload_of_load phase_loaded
  have hlookups := hloaded.store.scanner
  generalize ((start Generator .load bench 1 1).turns order).bench = loaded
    at hstart hfailure hsame hlookups ⊢
  rw [hworkload] at hsame
  have hshare : 0 < share (loaded.workload.quota .run) 1 0 := by
    rw [hsame]
    decide
  obtain ⟨worker, task, hnext, hgenerator⟩ := first_turn
    (hfailure (by rw [hfresh.workers]; exact hthreads)) Nat.one_pos
    List.not_mem_nil hshare
  have hcut := attempt_longScan hstart phase_start
    (workload_start.trans hsame) ?_ hnext hgenerator
  · obtain ⟨order', hover', hexecute⟩ :=
      execute_eq_turns (γ := Generator) .run loaded 1 1
    rw [hexecute]
    exact hstart.orderly.result_of_first_turn threads_start hnext
      (by rw [hcut]; rfl) hover'
  · rw [hstart.store.scanner, hlookups, hfresh.lookups]
    rfl

end Execution

end TieredCache
