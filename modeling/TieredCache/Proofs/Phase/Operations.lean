import Mathlib
import TieredCache.Proofs.Phase.Turns
import TieredCache.Proofs.Store.Stock

/-!
# Single operations of a benchmark

While a benchmark is under way, every record number that comes up has a key of
the one length that keys have.  So only a write can fail, and then because of
sizes; a lookup that goes to the shard of its key finds what is listed.
-/

namespace TieredCache

/-! ## Answers to writes -/

namespace Workload

variable {workload : Workload} {room shard : Nat}

def answer (workload : Workload) (room shard : Nat) : Except Halt Bool :=
  if workload.hasMemory then
    match workload.refusal? room shard with
    | none => .ok true
    | some e => .error (.reported e)
  else .error .cutShort

theorem answer_eq_ok_iff : workload.answer room shard = .ok true ↔
    workload.hasMemory = true ∧ workload.refusal? room shard = none := by
  unfold answer
  by_cases hmemory : workload.hasMemory = true
  · cases hrefusal : workload.refusal? room shard <;> simp [hmemory]
  · simp [hmemory]

/-- Whether there can be memory for the rows of any scan of the workload that may
make so many lookups. -/
def ScansFit (workload : Workload) (lookups : Nat) : Prop :=
  min workload.maxScanLength.toNat lookups * 24 < 2 ^ 63

/-- What operations of a kind can come to, where a scan may make so many
lookups. -/
def Allows (workload : Workload) (room lookups : Nat)
    (result : Except Halt Bool) : Operation → Prop
  | .read => ∃ found, result = .ok found
  | .update =>
      result = .ok false ∨ ∃ shard, result = workload.answer room shard
  | .scan => ∀ halt, result = .error halt →
      halt = .cutShort ∧ ¬workload.ScansFit lookups
  | .insert => ∃ shard, result = workload.answer room shard
  | .delete => ∃ found, result = .ok found

theorem Allows.of_error {lookups : Nat} {operation : Operation} {halt : Halt}
    (h : workload.Allows room lookups (.error halt) operation) :
    (operation = .scan ∧ halt = .cutShort ∧ ¬workload.ScansFit lookups) ∨
      (operation = .insert ∨ operation = .update) ∧
        ∃ shard, workload.answer room shard = .error halt := by
  cases operation with
  | read =>
      obtain ⟨found, hfound⟩ := h
      contradiction
  | update =>
      rcases h with hnone | ⟨shard, hshard⟩
      · contradiction
      · exact .inr ⟨.inr rfl, shard, hshard.symm⟩
  | scan => exact .inl ⟨rfl, h halt rfl⟩
  | insert =>
      obtain ⟨shard, hshard⟩ := h
      exact .inr ⟨.inl rfl, shard, hshard.symm⟩
  | delete =>
      obtain ⟨found, hfound⟩ := h
      contradiction

end Workload

namespace Bench

variable {γ : Type} [Draws γ] {bench : Bench} {base : Workload}
  {room claims worker : Nat} {listed : Bytes → Prop} {g : γ}

/-- A benchmark under way: its store suits the workload that it began with, of
which it has claimed no more numbers than the workload has operations. -/
structure Ready (bench : Bench) (base : Workload) (room claims : Nat)
    (listed : Bytes → Prop) : Prop where
  sound : base.Sound
  store : bench.store.Holds base room listed
  workload : bench.workload = base.after claims
  claims_le : claims ≤ base.operationCount.toNat

/-- Whether lookups are to find every record, unless one was dropped. -/
structure Full (bench : Bench) (base : Workload) (listed : Bytes → Prop) :
    Prop where
  readRouting : bench.store.readRouting = .key
  lookups : 0 < bench.store.scanner.lookupLimit
  some : 0 < bench.workload.nextInsert.toNat
  listed : ∀ id, id < bench.workload.nextInsert.toNat → listed (base.key id)

theorem Full.nextInsert_ne (h : bench.Full base listed) :
    bench.workload.nextInsert ≠ 0 := by
  intro hnone
  have hpos := h.some
  rw [hnone] at hpos
  contradiction

/-! ## Numbers in use -/

theorem Ready.nextInsert_le (h : bench.Ready base room claims listed) :
    bench.workload.nextInsert.toNat ≤ base.recordCount.toNat + claims := by
  rw [h.workload, Workload.toNat_nextInsert_after, h.sound.fresh]
  exact Nat.mod_le _ _

theorem Ready.key_of_lt (h : bench.Ready base room claims listed) {id : Nat}
    (hid : id < bench.workload.nextInsert.toNat) :
    (base.key id).length = base.keyLength ∧
      base.keys.key? id = some (base.key id) ∧
      base.keys.id? (base.key id) = some id ∧ id < idLimit := by
  have hnext := h.nextInsert_le
  have hclaims := h.claims_le
  have hlimit : id < idLimit := hid.trans (UInt64.toNat_lt _)
  obtain ⟨hlength, hkey, hback⟩ := h.sound.key_spec (by omega) hlimit
  exact ⟨hlength, hkey, hback, hlimit⟩

theorem Ready.key_eq (h : bench.Ready base room claims listed) (id : Nat) :
    bench.workload.key id = base.key id := by
  rw [h.workload]
  rfl

theorem Ready.asks (h : bench.Ready base room claims listed) (g : γ) :
    base.Asks (bench.workload.projection g).1 := by
  rw [h.workload]
  exact (base.after claims).asks_projection h.sound.fields g

/-! ## Writes -/

theorem Ready.write (h : bench.Ready base room claims listed) {id : Nat}
    (hkey : (base.key id).length = base.keyLength) (g : γ) :
    (bench.write id g).result =
        base.answer room (bench.store.routing.shardOfKey (base.key id)) ∧
      (∀ halt, (bench.write id g).result = .error halt →
        (bench.write id g).bench = bench) ∧
      ((bench.write id g).result = .ok true →
        bench.store.Reaches (bench.write id g).bench.store base room
          fun key => listed key ∨ key = base.key id) := by
  have hmemory : base.hasMemory = bench.workload.hasMemory := by
    rw [h.workload]
    rfl
  have hdescribes : ∀ record, bench.workload.Describes record →
      base.Describes record := by
    rw [h.workload]
    exact fun record hrecord => ⟨hrecord.names, hrecord.values⟩
  unfold Bench.write Workload.answer
  rw [hmemory]
  rcases bench.workload.record?_cases g with
    ⟨hroom, record, g', hrecord, hdrawn⟩ | ⟨hfull, hnone⟩
  · rw [if_pos hroom]
    simp only [hrecord, h.key_eq]
    cases hrefusal : base.refusal? room
        (bench.store.routing.shardOfKey (base.key id)) with
    | some e =>
        rw [h.store.write_refused hkey (hdescribes _ hdrawn) h.sound.fields
          hrefusal]
        exact ⟨rfl, fun _ _ => rfl, nofun⟩
    | none =>
        obtain ⟨hok, hnext⟩ := h.store.write_accepted hkey
          (hdescribes _ hdrawn) h.sound.fields hrefusal
        rw [hok]
        exact ⟨rfl, nofun, fun _ => hnext⟩
  · rw [if_neg hfull]
    simp only [hnone]
    exact ⟨trivial, fun _ _ => trivial, nofun⟩

theorem Ready.write_reaches (h : bench.Ready base room claims listed) {id : Nat}
    (hkey : (base.key id).length = base.keyLength) (g : γ) :
    bench.store.Reaches (bench.write id g).bench.store base room listed ∧
      (∃ shard, (bench.write id g).result = base.answer room shard) := by
  obtain ⟨hresult, hsame, hdone⟩ := h.write hkey g
  refine ⟨?_, _, hresult⟩
  cases hwritten : (bench.write id g).result with
  | error halt =>
      rw [hsame halt hwritten]
      exact h.store.reaches
  | ok found =>
      have hfound : found = true := by
        rw [hwritten, Workload.answer] at hresult
        split at hresult
        · split at hresult
          · exact Except.ok.inj hresult
          · cases hresult
        · cases hresult
      rw [hfound] at hwritten
      exact (hdone hwritten).mono fun key => .inl

/-! ## Lookups and removals -/

theorem Full.withExisting (h : bench.Full base listed) (g : γ)
    (act : Nat → γ → Performed γ) :
    ∃ id g', id < bench.workload.nextInsert.toNat ∧
      bench.withExisting g act = act id g' := by
  rcases bench.withExisting_cases g act with ⟨hnone, -⟩ | hsome
  · exact absurd hnone h.nextInsert_ne
  · exact hsome

theorem Ready.read (h : bench.Ready base room claims listed)
    (hworker : worker ∈ bench.store.routing.bindings) (g : γ) :
    ∃ found, (bench.read worker g).result = .ok found ∧
      bench.store.Reaches (bench.read worker g).bench.store base room listed ∧
      (bench.Full base listed → bench.store.nvmEvictions = 0 →
        found = true) := by
  unfold Bench.read
  rcases bench.withExisting_cases g _ with ⟨hnone, heq⟩ | ⟨id, g', hid, heq⟩
  · rw [heq]
    refine ⟨false, rfl, h.store.reaches, ?_⟩
    intro hfull
    exact absurd hnone hfull.nextInsert_ne
  · obtain ⟨found, hfound, hlisted, hnext⟩ :=
      h.store.read hworker (base.key id) (h.asks g')
    rw [heq]
    simp only [h.key_eq, hfound]
    refine ⟨found.isSome, rfl, hnext, ?_⟩
    intro hfull hkept
    exact hlisted hkept (hfull.listed id hid) hfull.readRouting

theorem Ready.scan (h : bench.Ready base room claims listed)
    (hworker : worker ∈ bench.store.routing.bindings) (g : γ) :
    bench.store.Reaches (bench.scan worker g).bench.store base room listed ∧
      (∀ halt, (bench.scan worker g).result = .error halt →
        halt = .cutShort ∧
          ¬base.ScansFit bench.store.scanner.lookupLimit) ∧
      (∀ found, (bench.scan worker g).result = .ok found →
        bench.Full base listed → bench.store.nvmEvictions = 0 →
          found = true) := by
  unfold Bench.scan
  rcases bench.withExisting_cases g _ with ⟨hnone, heq⟩ | ⟨id, g', hid, heq⟩
  · rw [heq]
    refine ⟨h.store.reaches, nofun, ?_⟩
    intro found _ hfull
    exact absurd hnone hfull.nextInsert_ne
  · obtain ⟨-, hkey, hback, hlimit⟩ := h.key_of_lt hid
    obtain ⟨hreaches, hcut, hanswered⟩ :=
      h.store.scan hworker hkey hback hlimit (bench.workload.scanLength g').1
        (h.asks (bench.workload.scanLength g').2)
    have hlength : (bench.workload.scanLength g').1 ≤
        base.maxScanLength.toNat := by
      rw [h.workload]
      exact (base.after claims).scanLength_le h.sound.scans g'
    rw [heq]
    simp only [h.key_eq]
    by_cases hmemory : bench.store.scanner.hasMemory Memory.listSize
        (bench.workload.scanLength g').1 = true
    · obtain ⟨found, hfound, hlisted⟩ := hanswered hmemory
      rw [hfound]
      refine ⟨hreaches, nofun, ?_⟩
      rintro _ ⟨⟩ hfull hkept
      have hne := hlisted hkept (hfull.listed id hid) hfull.readRouting
        (bench.workload.scanLength_pos g') hfull.lookups
      simpa using hne
    · rw [hcut hmemory]
      refine ⟨hreaches, ?_, nofun⟩
      rintro _ ⟨⟩
      refine ⟨rfl, fun hfit => hmemory ?_⟩
      rw [Scanner.hasMemory_iff]
      unfold Workload.ScansFit at hfit
      have hmin := min_le_min_right bench.store.scanner.lookupLimit hlength
      exact (Nat.mul_le_mul_right 24 hmin).trans_lt hfit

theorem Ready.scan_cutShort (h : bench.Ready base room claims listed)
    (hworker : worker ∈ bench.store.routing.bindings)
    (hsome : bench.workload.nextInsert ≠ 0) (g : γ)
    (hlong : 2 ^ 63 ≤ min
      (bench.workload.scanLength (bench.workload.existing? g).2).1
        bench.store.scanner.lookupLimit * 24) :
    (bench.scan worker g).result = .error .cutShort := by
  obtain ⟨id, hid⟩ : ∃ id, (bench.workload.existing? g).1 = some id := by
    unfold Workload.existing?
    rw [if_neg hsome]
    exact ⟨_, rfl⟩
  obtain ⟨-, hkey, hback, hlimit⟩ :=
    h.key_of_lt (Workload.lt_of_existing? hid)
  have heq : bench.workload.existing? g =
      (some id, (bench.workload.existing? g).2) := Prod.ext hid rfl
  generalize (bench.workload.existing? g).2 = g' at heq hlong
  obtain ⟨-, hcut, -⟩ :=
    h.store.scan hworker hkey hback hlimit (bench.workload.scanLength g').1
      (h.asks (bench.workload.scanLength g').2)
  have hnone : ¬bench.store.scanner.hasMemory Memory.listSize
      (bench.workload.scanLength g').1 = true := by
    rw [Scanner.hasMemory_iff]
    exact hlong.not_gt
  unfold Bench.scan Bench.withExisting
  simp only [heq, h.key_eq, hcut hnone]
  rfl

theorem Ready.delete (h : bench.Ready base room claims fun _ => False)
    (g : γ) :
    ∃ found, (bench.delete g).result = .ok found ∧
      bench.store.Reaches (bench.delete g).bench.store base room
        fun _ => False := by
  unfold Bench.delete
  rcases bench.withExisting_cases g _ with ⟨-, heq⟩ | ⟨id, g', -, heq⟩
  · rw [heq]
    exact ⟨false, rfl, h.store.reaches⟩
  · obtain ⟨found, hfound, hnext⟩ :=
      h.store.delete (bench.workload.key id)
    rw [heq]
    simp only [hfound]
    exact ⟨found, rfl, hnext.mono fun _ => False.elim⟩

/-! ## Any operation -/

theorem Ready.update (h : bench.Ready base room claims listed) (g : γ) :
    bench.store.Reaches (bench.update g).bench.store base room listed ∧
      ((bench.update g).result = .ok false ∨
        ∃ shard, (bench.update g).result = base.answer room shard) := by
  unfold Bench.update
  rcases bench.withExisting_cases g _ with ⟨-, heq⟩ | ⟨id, g', hid, heq⟩
  · rw [heq]
    exact ⟨h.store.reaches, .inl rfl⟩
  · obtain ⟨hkey, -⟩ := h.key_of_lt hid
    obtain ⟨hnext, hanswer⟩ := h.write_reaches hkey g'
    rw [heq]
    exact ⟨hnext, .inr hanswer⟩

theorem Ready.claim (h : bench.Ready base room claims listed)
    (hclaims : claims < base.operationCount.toNat) :
    Ready { bench with workload := bench.workload.claim.2 } base room
        (claims + 1) listed ∧
      (base.key bench.workload.claim.1).length = base.keyLength := by
  have hnext := h.nextInsert_le
  constructor
  · refine ⟨h.sound, h.store, ?_, hclaims⟩
    simp only [h.workload, Workload.claim_after]
  · have hlimit : bench.workload.nextInsert.toNat < idLimit :=
      UInt64.toNat_lt _
    exact (h.sound.key_spec (by change _ < _ at hlimit; omega) hlimit).1

theorem Ready.insert (h : bench.Ready base room claims listed)
    (hclaims : claims < base.operationCount.toNat) (g : γ) :
    bench.store.Reaches (bench.insert g).bench.store base room listed ∧
      ∃ shard, (bench.insert g).result = base.answer room shard := by
  obtain ⟨hready, hkey⟩ := h.claim hclaims
  exact hready.write_reaches hkey g

/-- Whatever is done leaves the store one that suits the workload. -/
theorem Ready.perform (h : bench.Ready base room claims fun _ => False)
    (hclaims : claims < base.operationCount.toNat)
    (hworker : worker ∈ bench.store.routing.bindings) (operation : Operation)
    (g : γ) :
    bench.store.Reaches (bench.perform worker operation g).bench.store base
        room (fun _ => False) ∧
      base.Allows room bench.store.scanner.lookupLimit
        (bench.perform worker operation g).result operation := by
  cases operation with
  | read =>
      obtain ⟨found, hfound, hnext, -⟩ := h.read hworker g
      exact ⟨hnext, found, hfound⟩
  | update => exact h.update g
  | scan =>
      obtain ⟨hnext, hhalted, -⟩ := h.scan hworker g
      exact ⟨hnext, hhalted⟩
  | insert => exact h.insert hclaims g
  | delete =>
      obtain ⟨found, hfound, hnext⟩ := h.delete g
      exact ⟨hnext, found, hfound⟩

end Bench

end TieredCache
