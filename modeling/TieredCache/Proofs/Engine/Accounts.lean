import Mathlib
import TieredCache.Proofs.Engine.Answers

/-!
# The accounts of an engine

Counters grow in other places than those where entries move, and yet they
account for what is there.  What the non-volatile tiers hold and what was read
back from them had to be written into them first; and the entries of all pools
are those that were added, without those that were removed or dropped.
-/

namespace TieredCache

/-! ## What a ledger is worth -/

namespace Ledger

/-- What the entries of a ledger come to at a price for each. -/
def worth (price : Bytes → Bytes → Nat) (ledger : Ledger Bytes) : Nat :=
  (ledger.map fun pair => price pair.1 pair.2).sum

variable {price : Bytes → Bytes → Nat} {ledger ledger' : Ledger Bytes}
  {key value : Bytes}

@[simp] theorem worth_cons :
    worth price ((key, value) :: ledger) =
      price key value + ledger.worth price := by
  simp [worth]

theorem worth_one : ledger.worth (fun _ _ => 1) = ledger.length := by
  simp [worth]

theorem worth_perm (h : ledger.Perm ledger') :
    ledger.worth price = ledger'.worth price :=
  (h.map _).sum_nat

theorem worth_erase_le : (ledger.erase key).worth price ≤ ledger.worth price :=
  (List.filter_sublist.map _).sum_le_sum fun _ _ => Nat.zero_le _

end Ledger

namespace NvmTier

theorem worth_take (price : Bytes → Bytes → Nat) (tier : NvmTier)
    (key : Bytes) :
    (tier.take key).2.ledger.worth price +
        ((tier.take key).1.map (price key)).getD 0 =
      tier.ledger.worth price := by
  cases hitem : tier.items[key]? with
  | none => simp [take, hitem]
  | some value =>
      have htaken : (tier.take key).2.ledger.Perm (tier.ledger.erase key) := by
        simp only [take, hitem]
        exact ledger_erase tier.items key
      have hwhole :=
        Ledger.perm_cons_erase tier.nodup_ledger (mem_ledger.2 hitem)
      rw [Ledger.worth_perm htaken, Ledger.worth_perm hwhole,
        Ledger.worth_cons, Nat.add_comm]
      simp [take, hitem]

theorem worth_insert_le (price : Bytes → Bytes → Nat) (tier : NvmTier)
    (key value : Bytes) :
    (tier.insert key value).ledger.worth price ≤
      tier.ledger.worth price + price key value := by
  have hrest : (tier.ledger.erase key).worth price ≤
      tier.ledger.worth price := Ledger.worth_erase_le
  rw [Ledger.worth_perm (ledger_insert tier key value), Ledger.set,
    Ledger.worth_cons]
  omega

/-- What a tier receives adds no more to its worth than was demoted, when no
price is above the charge for the size. -/
theorem worth_receive_le (price : Bytes → Bytes → Nat) (charge : Nat → Nat)
    (hcharge : ∀ key value, price key value ≤ charge (entrySize key value))
    (tier : NvmTier) (evicted : List (Bytes × Bytes)) :
    (tier.receive evicted).1.ledger.worth price ≤
      tier.ledger.worth price +
        ((demotedSizes (tier.receive evicted).2).map charge).sum := by
  induction evicted generalizing tier with
  | nil => simp [receive]
  | cons entry rest ih =>
      obtain ⟨key, value⟩ := entry
      rw [receive_cons]
      by_cases hroom : tier.bytesWith key value ≤ tier.capacity
      · rw [if_pos hroom]
        have hinsert := tier.worth_insert_le price key value
        have hrest := ih (tier.insert key value)
        have hprice := hcharge key value
        simp only [demotedSizes, List.filterMap_cons, List.map_cons,
          List.sum_cons] at hrest ⊢
        omega
      · rw [if_neg hroom]
        exact ih tier

end NvmTier

/-! ## One operation -/

namespace Pool

def entryCount (pool : Pool) : Nat := pool.ram.size + pool.nvm.items.size

def itemsBelow (pool : Pool) : Nat := pool.nvm.items.size

def bytesBelow (pool : Pool) : Nat :=
  (pool.nvm.items.toList.map fun item => item.2.length).sum

theorem itemsBelow_eq (pool : Pool) :
    pool.itemsBelow = pool.nvm.ledger.worth fun _ _ => 1 := by
  rw [Ledger.worth_one]
  exact Std.HashMap.length_toList.symm

theorem bytesBelow_eq (pool : Pool) :
    pool.bytesBelow = pool.nvm.ledger.worth fun _ value => value.length := rfl

theorem below_take_of_some {pool : Pool} {key value : Bytes}
    (hitem : pool.nvm.items[key]? = some value) :
    let taken : Pool := { pool with nvm := (pool.nvm.take key).2 }
    taken.itemsBelow + 1 = pool.itemsBelow ∧
      taken.bytesBelow + value.length = pool.bytesBelow := by
  intro taken
  have htake : (pool.nvm.take key).1 = some value := by
    simp only [NvmTier.take, hitem]
  have hitems := pool.nvm.worth_take (fun _ _ => 1) key
  have hbytes := pool.nvm.worth_take (fun _ value => value.length) key
  rw [htake] at hitems hbytes
  rw [itemsBelow_eq, itemsBelow_eq, bytesBelow_eq, bytesBelow_eq]
  exact ⟨hitems, hbytes⟩

theorem below_take_le (pool : Pool) (key : Bytes) :
    let taken : Pool := { pool with nvm := (pool.nvm.take key).2 }
    taken.itemsBelow ≤ pool.itemsBelow ∧
      taken.bytesBelow ≤ pool.bytesBelow := by
  intro taken
  have hitems := pool.nvm.worth_take (fun _ _ => 1) key
  have hbytes := pool.nvm.worth_take (fun _ value => value.length) key
  rw [itemsBelow_eq, itemsBelow_eq, bytesBelow_eq, bytesBelow_eq, ← hitems,
    ← hbytes]
  exact ⟨Nat.le_add_right _ _, Nat.le_add_right _ _⟩

theorem below_raise_le (pool : Pool) (key value : Bytes) :
    (pool.raise key value).2.itemsBelow ≤
        pool.itemsBelow + (demotedSizes (pool.raise key value).1).length ∧
      (pool.raise key value).2.bytesBelow ≤
        pool.bytesBelow + (demotedSizes (pool.raise key value).1).sum := by
  let evicted := (pool.ram.put key value (entrySize key value)).1
  have hitems := NvmTier.worth_receive_le (fun _ _ => 1) (fun _ => 1)
    (fun _ _ => le_rfl) pool.nvm evicted
  have hbytes := NvmTier.worth_receive_le (fun _ value => value.length) id
    (fun _ _ => Nat.le_add_left _ _) pool.nvm evicted
  rw [List.map_const', List.sum_replicate, smul_eq_mul, mul_one] at hitems
  rw [List.map_id] at hbytes
  rw [itemsBelow_eq, itemsBelow_eq, bytesBelow_eq, bytesBelow_eq]
  exact ⟨hitems, hbytes⟩

end Pool

namespace Counters

/-- Counters account for the items below RAM and for the bytes of their
values. -/
structure Cover (counters : Counters) (items bytes : Nat) : Prop where
  lookups : counters.lookups = counters.ramHits + counters.nvmLookups
  hits : counters.nvmHits ≤ counters.nvmLookups
  demoted : items + counters.nvmHits ≤ counters.ramEvictions
  written : counters.nvmBytesRead + bytes ≤ counters.nvmBytesWritten

variable {counters : Counters} {pool : Pool} {items bytes fewer less : Nat}

theorem Cover.mono (h : counters.Cover items bytes) (hitems : fewer ≤ items)
    (hbytes : less ≤ bytes) : counters.Cover fewer less := by
  obtain ⟨hlookups, hhits, hdemoted, hwritten⟩ := h
  constructor <;> omega

theorem Cover.depart (h : counters.Cover items bytes)
    (departures : List Departure) :
    (counters.countDepartures departures).Cover
      (items + (demotedSizes departures).length)
      (bytes + (demotedSizes departures).sum) := by
  obtain ⟨hlookups, hhits, hdemoted, hwritten⟩ := h
  rw [countDepartures_eq]
  constructor <;> simp only <;> omega

theorem Cover.ramHit (h : counters.Cover items bytes) :
    counters.countLookup.countRamHit.Cover items bytes := by
  obtain ⟨hlookups, hhits, hdemoted, hwritten⟩ := h
  constructor <;> simp only [countLookup, countRamHit] <;> omega

theorem Cover.nvmMiss (h : counters.Cover items bytes) :
    counters.countLookup.countNvmMiss.Cover items bytes := by
  obtain ⟨hlookups, hhits, hdemoted, hwritten⟩ := h
  constructor <;> simp only [countLookup, countNvmMiss] <;> omega

theorem Cover.nvmHit {valueBytes : Nat}
    (h : counters.Cover (items + 1) (bytes + valueBytes)) :
    (counters.countLookup.countNvmHit valueBytes).Cover items bytes := by
  obtain ⟨hlookups, hhits, hdemoted, hwritten⟩ := h
  constructor <;> simp only [countLookup, countNvmHit] <;> omega

theorem Cover.perform
    (h : counters.Cover (items + pool.itemsBelow) (bytes + pool.bytesBelow))
    (call : ItemCall) :
    (counters.countCall pool call).Cover
      (items + (pool.perform call).itemsBelow)
      (bytes + (pool.perform call).bytesBelow) := by
  cases call with
  | install handle =>
      obtain ⟨htaken, htaken'⟩ := pool.below_take_le handle.key
      obtain ⟨hraised, hraised'⟩ := Pool.below_raise_le
        { pool with nvm := (pool.nvm.take handle.key).2 } handle.key
        handle.memory
      refine (h.depart _).mono ?_ ?_
      · simp only [Pool.perform, Pool.departures, Pool.store]
        omega
      · simp only [Pool.perform, Pool.departures, Pool.store]
        omega
  | find id key =>
      rcases pool.find_cases key with ⟨value, ram, -, hfind⟩ |
        ⟨ram, -, -, hfind⟩ | ⟨value, ram, -, hitem, hfind⟩
      · simp only [countCall, Pool.perform, hfind, countFind]
        exact h.ramHit
      · simp only [countCall, Pool.perform, hfind, countFind]
        exact h.nvmMiss
      · let taken : Pool := { pool with ram, nvm := (pool.nvm.take key).2 }
        have hbelow : taken.itemsBelow + 1 = pool.itemsBelow ∧
            taken.bytesBelow + value.length = pool.bytesBelow :=
          Pool.below_take_of_some hitem
        obtain ⟨hraised, hraised'⟩ := taken.below_raise_le key value
        rw [← hbelow.1, ← hbelow.2, ← Nat.add_assoc, ← Nat.add_assoc] at h
        change pool.find key = (.inNvm value, taken.raise key value) at hfind
        simp only [countCall, Pool.perform, Pool.departures, hfind, countFind]
        refine (h.nvmHit.depart _).mono ?_ ?_
        · omega
        · omega
  | remove id key =>
      obtain ⟨htaken, htaken'⟩ := pool.below_take_le key
      refine h.mono ?_ ?_
      · exact Nat.add_le_add_left htaken _
      · exact Nat.add_le_add_left htaken' _

end Counters

/-! ## Entries against a ledger -/

namespace Ledger

variable {ν : Type} {ledger : Ledger ν}

theorem length_erase (h : ledger.keys.Nodup) (key : Bytes) :
    (ledger.erase key).length + (ledger.value? key).toList.length =
      ledger.length := by
  cases hvalue : ledger.value? key with
  | none =>
      rw [erase_of_notMem (value?_eq_none_iff.1 hvalue)]
      rfl
  | some value =>
      have hperm := perm_cons_erase h (mem_of_value? hvalue)
      exact hperm.length_eq.symm

end Ledger

namespace Pool

variable {pool next : Pool} {ledger : Ledger Bytes} {key : Bytes}
  {order : RecencyOrder Bytes Bytes}

theorem Holds.entryCount (h : pool.Holds order) :
    pool.entryCount = (pool.contents order).length := by
  rw [Pool.entryCount, h.ram.size, contents, List.length_append, NvmTier.ledger,
    Std.HashMap.length_toList, RecencyOrder.pairs, List.length_map]

theorem Settles.entryCount {target : Ledger Bytes}
    {departures : List Departure}
    (h : pool.Settles next order target departures) :
    next.entryCount + (droppedKeys departures).length = target.length := by
  obtain ⟨lost, hdropped, hsettled, -⟩ := h.settled
  rw [h.holds.entryCount, hdropped, Ledger.keys, List.length_map,
    ← List.length_append]
  exact hsettled.length_eq

theorem Keeps.value?_eq (h : pool.Keeps ledger) (key : Bytes) :
    ledger.value? key = (pool.inRam? key).or pool.nvm.items[key]? := by
  obtain ⟨order, hholds, hperm⟩ := h
  rw [← Ledger.value?_perm hperm hholds.distinct, value?_contents,
    hholds.inRam?]

theorem Keeps.entryCount (h : pool.Keeps ledger) :
    pool.entryCount = ledger.length := by
  obtain ⟨order, hholds, hperm⟩ := h
  rw [hholds.entryCount, hperm.length_eq]

theorem Keeps.entryCount_perform (h : pool.Keeps ledger) {call : ItemCall}
    (hallows : pool.Allows call) :
    (pool.perform call).entryCount +
        (droppedKeys (pool.departures call)).length =
      (call.enter ledger).length := by
  obtain ⟨order, hholds, hperm⟩ := h
  cases call with
  | install handle =>
      obtain ⟨order', -, hsettles⟩ := hholds.store hallows
      exact hsettles.entryCount.trans (Ledger.set_perm hperm).length_eq
  | find id key =>
      obtain ⟨-, order', -, hsettles⟩ := hholds.find key
      exact hsettles.entryCount.trans hperm.length_eq
  | remove id key =>
      obtain ⟨-, order', hsettles⟩ := hholds.remove key
      exact hsettles.entryCount.trans (hperm.filter _).length_eq

end Pool

/-! ## All pools -/

namespace Engine

variable {engine : Engine} {ledgers : Nat → Ledger Bytes} {id : Nat}
  {pool : Pool}

def total (amount : Pool → Nat) (engine : Engine) : Nat :=
  (engine.pools.toList.map amount).sum

def inNvm? (engine : Engine) (id : Nat) (key : Bytes) : Option Bytes :=
  match engine.pools[id]? with
  | some pool => pool.nvm.items[key]?
  | none => none

def added (engine : Engine) : ItemCall → Nat
  | .install handle =>
      if engine.inRam? handle.pool handle.key = none ∧
          engine.inNvm? handle.pool handle.key = none then 1 else 0
  | .find _ _ => 0
  | .remove _ _ => 0

def removed (engine : Engine) : ItemCall → Nat
  | .install _ => 0
  | .find _ _ => 0
  | .remove id key =>
      match (engine.remove id key).1 with
      | .ok true => 1
      | _ => 0

/-- An amount splits into that of one pool and that of the others, which stays
when the pool changes. -/
theorem total_setPool (amount : Pool → Nat)
    (hpool : engine.pools[id]? = some pool) :
    ∃ others, engine.total amount = others + amount pool ∧
      ∀ next counters, (engine.setPool id next counters).total amount =
        others + amount next := by
  obtain ⟨hid, rfl⟩ := Array.getElem?_eq_some_iff.1 hpool
  let others := ((engine.pools.toList.take id).map amount).sum +
    ((engine.pools.toList.drop (id + 1)).map amount).sum
  have hsplit (next : Pool) :
      ((engine.pools.toList.set id next).map amount).sum =
        others + amount next := by
    rw [List.set_eq_take_append_cons_drop, if_pos (by simpa using hid)]
    simp only [List.map_append, List.map_cons, List.sum_append, List.sum_cons,
      others]
    omega
  refine ⟨others, ?_, fun next counters => ?_⟩
  · rw [total, ← hsplit, ← Array.getElem_toList, List.set_getElem_self]
  · rw [total, setPool, Array.toList_setIfInBounds, hsplit]

def Covered (engine : Engine) : Prop :=
  engine.counters.Cover (engine.total Pool.itemsBelow)
    (engine.total Pool.bytesBelow)

theorem Covered.perform (h : engine.Covered) (call : ItemCall) :
    (engine.perform call).Covered := by
  cases hpool : engine.pools[call.pool]? with
  | none =>
      rw [perform_of_absent hpool]
      exact h
  | some pool =>
      obtain ⟨items, hitems, hitems'⟩ := total_setPool Pool.itemsBelow hpool
      obtain ⟨bytes, hbytes, hbytes'⟩ := total_setPool Pool.bytesBelow hpool
      rw [perform_eq hpool]
      unfold Covered at h ⊢
      rw [hitems, hbytes] at h
      rw [hitems', hbytes']
      exact h.perform call

theorem total_addPool {name : String} {bytes number : Nat} {next : Engine}
    (h : engine.addPool name bytes = .ok (number, next))
    {amount : Pool → Nat}
    (hempty : ∀ ramBytes nvmBytes, amount (.empty ramBytes nvmBytes) = 0) :
    next.total amount = engine.total amount := by
  obtain ⟨-, hpushed, -⟩ := addPool_eq h
  simp [total, hpushed, hempty]

theorem Keeps.length_enter (h : engine.Keeps ledgers) {call : ItemCall}
    (hpool : engine.pools[call.pool]? = some pool) :
    (call.enter (ledgers call.pool)).length + engine.removed call =
      (ledgers call.pool).length + engine.added call := by
  have hkeeps := h.pools call.pool pool hpool
  cases call with
  | install handle =>
      change engine.pools[handle.pool]? = some pool at hpool
      have hlength := Ledger.length_erase hkeeps.nodup handle.key
      rw [hkeeps.value?_eq] at hlength
      simp only [ItemCall.enter, Ledger.set, List.length_cons, removed, added,
        inRam?, inNvm?, hpool, ItemCall.pool] at hlength ⊢
      cases hram : pool.inRam? handle.key with
      | some value => simpa [hram] using hlength
      | none =>
          cases hnvm : pool.nvm.items[handle.key]? with
          | some value => simpa [hram, hnvm] using hlength
          | none => simpa [hram, hnvm] using hlength
  | find id key => rfl
  | remove id key =>
      change engine.pools[id]? = some pool at hpool
      have hlength := Ledger.length_erase hkeeps.nodup key
      have hremoved := h.remove (Array.getElem?_eq_some_iff.1 hpool).1 key
      simp only [ItemCall.enter, removed, added, hremoved, ItemCall.pool]
        at hlength ⊢
      cases hvalue : (ledgers id).value? key with
      | none => simpa [hvalue] using hlength
      | some value => simpa [hvalue] using hlength

/-- What enters a pool and what leaves it make up for the entries there. -/
theorem Keeps.entryCount_perform (h : engine.Keeps ledgers) {call : ItemCall}
    (hpermits : engine.Permits call) :
    (engine.perform call).total Pool.entryCount + engine.removed call +
        (engine.dropped call).length =
      engine.total Pool.entryCount + engine.added call := by
  cases hpool : engine.pools[call.pool]? with
  | none =>
      rw [perform_of_absent hpool]
      cases call with
      | install handle =>
          obtain ⟨pool, hpresent, -⟩ := hpermits
          change engine.pools[handle.pool]? = none at hpool
          rw [hpool] at hpresent
          cases hpresent
      | find id key => simp [removed, added, dropped, hpool]
      | remove id key =>
          change engine.pools[id]? = none at hpool
          have hid := Array.getElem?_eq_none_iff.1 hpool
          have hanswer : (engine.remove id key).1 =
              .error (.unknownPool id) := by
            simp [Engine.remove, Nat.not_lt.2 hid]
          simp [removed, added, dropped, ItemCall.pool, hpool, hanswer]
  | some pool =>
      obtain ⟨others, hbefore, hafter⟩ := total_setPool Pool.entryCount hpool
      have hkeeps := h.pools call.pool pool hpool
      have hcount := hkeeps.entryCount_perform (hpermits.allows hpool)
      have hlength := h.length_enter hpool
      have hdropped : engine.dropped call =
          droppedKeys (pool.departures call) := by
        simp [dropped, hpool]
      rw [perform_eq hpool, hafter, hbefore, hdropped,
        hkeeps.entryCount]
      omega

end Engine

/-! ## Sessions -/

namespace Session

variable {session : Session}

def added (session : Session) (call : EngineCall) : Nat :=
  match session.item? call with
  | some item => session.engine.added item
  | none => 0

def removed (session : Session) (call : EngineCall) : Nat :=
  match session.item? call with
  | some item => session.engine.removed item
  | none => 0

/-- The sum of an amount over calls, each met by the session that those before
it lead to. -/
def sumOver (amount : Session → EngineCall → Nat) (session : Session) :
    List EngineCall → Nat
  | [] => 0
  | call :: rest =>
      amount session call + sumOver amount (session.perform call) rest

theorem sumOver_concat (amount : Session → EngineCall → Nat)
    (session : Session) (calls : List EngineCall) (call : EngineCall) :
    sumOver amount session (calls ++ [call]) =
      sumOver amount session calls + amount (session.run calls) call := by
  induction calls generalizing session with
  | nil => simp [sumOver, run]
  | cons first rest ih =>
      simp only [List.cons_append, sumOver, ih, run, List.foldl_cons]
      omega

theorem sumOver_eq_zero_iff {amount : Session → EngineCall → Nat}
    {calls : List EngineCall} :
    session.sumOver amount calls = 0 ↔
      ∀ before call, before ++ [call] <+: calls →
        amount (session.run before) call = 0 := by
  induction calls using List.reverseRecOn with
  | nil => simp [sumOver]
  | append_singleton calls last ih =>
      rw [sumOver_concat, Nat.add_eq_zero_iff, ih]
      constructor
      · rintro ⟨hbefore, hlast⟩ before call hcalls
        rcases List.prefix_concat_iff.1 hcalls with heq | hshorter
        · obtain ⟨rfl, hcall⟩ := List.append_inj' heq rfl
          rw [List.cons.inj hcall |>.1]
          exact hlast
        · exact hbefore before call hshorter
      · intro h
        constructor
        · intro before call hcalls
          exact h before call (hcalls.trans (List.prefix_append _ _))
        · exact h calls last List.prefix_rfl

theorem engine_perform_other {call : EngineCall}
    (hitem : session.item? call = none) :
    (session.perform call).engine = session.engine ∨
      ∃ name bytes number, session.engine.addPool name bytes =
        .ok (number, (session.perform call).engine) := by
  cases call with
  | addPool name bytes =>
      cases hadd : session.engine.addPool name bytes with
      | error e => exact .inl (by simp [perform, hadd])
      | ok added =>
          refine .inr ⟨name, bytes, added.1, ?_⟩
          simp only [perform, hadd]
  | allocate id key size =>
      left
      simp only [perform]
      split <;> rfl
  | write index data offset =>
      left
      simp only [perform]
      split <;> rfl
  | install index =>
      have hhandle : session.handles[index]? = none := by
        simpa [item?] using hitem
      exact .inl (by simp [perform, hhandle])
  | find id key => simp [item?] at hitem
  | remove id key => simp [item?] at hitem

theorem covered_perform (h : session.engine.Covered) (call : EngineCall) :
    (session.perform call).engine.Covered := by
  cases hitem : session.item? call with
  | some item =>
      rw [(engine_perform hitem).1]
      exact h.perform item
  | none =>
      rcases engine_perform_other hitem with hsame | ⟨name, bytes, number, hadd⟩
      · rw [hsame]
        exact h
      · unfold Engine.Covered
        rw [(Engine.addPool_eq hadd).2.2, Engine.total_addPool hadd,
          Engine.total_addPool hadd]
        · exact h
        · intro ramBytes nvmBytes
          simp [Pool.bytesBelow, Pool.empty, NvmTier.empty]
        · intro ramBytes nvmBytes
          simp [Pool.itemsBelow, Pool.empty, NvmTier.empty]

theorem covered_run {ramBytes : Nat} {hierarchy : Hierarchy} {engine : Engine}
    (h : Engine.create ramBytes hierarchy = .ok engine)
    (calls : List EngineCall) :
    ((start engine).run calls).engine.Covered := by
  induction calls using List.reverseRecOn with
  | nil =>
      rw [Engine.create_eq h]
      constructor <;> simp [start, run, Engine.total]
  | append_singleton calls call ih =>
      rw [run_concat]
      exact covered_perform ih call

theorem Sound.entryCount_perform {ledgers : Nat → Ledger Bytes}
    (h : session.Sound ledgers) (call : EngineCall) :
    (session.perform call).engine.total Pool.entryCount +
        session.removed call + (session.dropped call).length =
      session.engine.total Pool.entryCount + session.added call := by
  unfold removed dropped added
  cases hitem : session.item? call with
  | some item =>
      rw [(engine_perform hitem).1]
      exact h.keeps.entryCount_perform (h.permits hitem)
  | none =>
      rcases engine_perform_other hitem with hsame | ⟨name, bytes, number, hadd⟩
      · simp [hsame]
      · rw [Engine.total_addPool hadd]
        · simp
        · intro ramBytes nvmBytes
          simp [Pool.entryCount, Pool.empty, NvmTier.empty, LinkedCache.empty,
            LinkedCache.size]

theorem entryCount_run {ramBytes : Nat} {hierarchy : Hierarchy}
    {engine : Engine} (h : Engine.create ramBytes hierarchy = .ok engine)
    (calls : List EngineCall) :
    let session := (start engine).run calls
    session.engine.total Pool.entryCount + (start engine).sumOver removed calls +
        session.engine.counters.nvmEvictions =
      (start engine).sumOver added calls := by
  induction calls using List.reverseRecOn with
  | nil =>
      rw [Engine.create_eq h]
      simp [start, run, Engine.total, sumOver]
  | append_singleton calls call ih =>
      have hsound := sound_run h calls
      have hentries := hsound.entryCount_perform call
      have hevictions := hsound.nvmEvictions_perform call
      simp only [run_concat, sumOver_concat] at ih ⊢
      omega

/-- After any session every lookup has ended in RAM or gone below it, the entries
of all pools are those added without those removed or dropped, and what is or
was found below RAM had been demoted, with at least as many bytes written. -/
theorem counters_account_for_entries {ramBytes : Nat} {hierarchy : Hierarchy}
    {engine : Engine} (hcreate : Engine.create ramBytes hierarchy = .ok engine)
    (calls : List EngineCall) :
    let session := (start engine).run calls
    let counters := session.engine.counters
    counters.lookups = counters.ramHits + counters.nvmLookups ∧
    counters.nvmHits ≤ counters.nvmLookups ∧
    (session.engine.total Pool.entryCount : ℤ) =
      (start engine).sumOver added calls -
        (start engine).sumOver removed calls - counters.nvmEvictions ∧
    session.engine.total Pool.itemsBelow + counters.nvmHits ≤
      counters.ramEvictions ∧
    counters.nvmBytesRead + session.engine.total Pool.bytesBelow ≤
      counters.nvmBytesWritten := by
  intro session counters
  obtain ⟨hlookups, hhits, hdemoted, hwritten⟩ := covered_run hcreate calls
  have hentries : session.engine.total Pool.entryCount +
      (start engine).sumOver removed calls + counters.nvmEvictions =
        (start engine).sumOver added calls := entryCount_run hcreate calls
  refine ⟨hlookups, hhits, ?_, hdemoted, hwritten⟩
  omega

/-- Two keys that take turns in RAM are looked up, and one of them is removed. -/
def twoKeysFound : List EngineCall :=
  twoKeys ++ [.find 0 [1], .find 0 [9], .find 0 [2], .remove 0 [2],
    .find 0 [2]]

theorem counters_account_for_twoKeysFound :
    Engine.create 8 smallHierarchy = .ok smallEngine ∧
      let session := (start smallEngine).run twoKeysFound
      let counters := session.engine.counters
      counters.lookups = counters.ramHits + counters.nvmLookups ∧
      counters.nvmHits ≤ counters.nvmLookups ∧
      (session.engine.total Pool.entryCount : ℤ) =
        (start smallEngine).sumOver added twoKeysFound -
          (start smallEngine).sumOver removed twoKeysFound -
            counters.nvmEvictions ∧
      session.engine.total Pool.itemsBelow + counters.nvmHits ≤
        counters.ramEvictions ∧
      counters.nvmBytesRead + session.engine.total Pool.bytesBelow ≤
        counters.nvmBytesWritten :=
  ⟨create_smallEngine,
    counters_account_for_entries create_smallEngine twoKeysFound⟩

end Session

end TieredCache
