import Mathlib
import TieredCache.Proofs.Engine.Answers

/-!
# Pools apart from each other

Clients of different pools share an engine, its RAM and its counters, and yet
none of them can tell whether the others are there: what the calls on a pool
answer, and how many entries the pool has after each, stays the same when all
calls on other pools are left out.
-/

namespace TieredCache

/-- A call on a pool.  Buffers are given as they are, so a client may hold one
for any time before it is installed, and fill it as it likes. -/
inductive PoolCall where
  | allocate (id : Nat) (key : Bytes) (size : Nat)
  | item (call : ItemCall)
  deriving DecidableEq, Repr

def PoolCall.pool : PoolCall → Nat
  | .allocate id _ _ => id
  | .item call => call.pool

def PoolCall.change (pool : Pool) : PoolCall → Pool
  | .allocate _ _ _ => pool
  | .item call => pool.perform call

inductive PoolAnswer where
  | refused (cause : EngineError)
  | allocated (handle? : Option WriteHandle)
  | installed
  | found (value? : Option Bytes)
  | removed (present : Bool)
  deriving DecidableEq, Repr

def PoolAnswer.ofExcept {α : Type} (answer : α → PoolAnswer) :
    Except EngineError α → PoolAnswer
  | .ok result => answer result
  | .error cause => .refused cause

/-- What the client of a pool sees of a call: the answer, and the numbers of
entries in RAM and below it afterwards. -/
structure Observation where
  call : PoolCall
  answer : PoolAnswer
  ramCount : Nat
  nvmCount : Nat
  deriving DecidableEq, Repr

namespace Engine

variable {engine other : Engine} {call : PoolCall} {id : Nat}

def serve (engine : Engine) : PoolCall → PoolAnswer × Engine
  | .allocate id key size =>
      (.ofExcept .allocated (engine.allocate id key size), engine)
  | .item (.install handle) =>
      (.ofExcept (fun _ => .installed) (engine.install handle).1,
        (engine.install handle).2)
  | .item (.find id key) =>
      (.ofExcept .found (engine.find id key).1, (engine.find id key).2)
  | .item (.remove id key) =>
      (.ofExcept .removed (engine.remove id key).1, (engine.remove id key).2)

def after (engine : Engine) (calls : List PoolCall) : Engine :=
  calls.foldl (fun engine call => (engine.serve call).2) engine

def observe (engine : Engine) : List PoolCall → List Observation
  | [] => []
  | call :: rest =>
      let (answer, next) := engine.serve call
      ⟨call, answer, next.ramCount call.pool, next.nvmCount call.pool⟩ ::
        next.observe rest

def withPools (engine : Engine) : List (String × Nat) → List Nat × Engine
  | [] => ([], engine)
  | (name, bytes) :: rest =>
      match engine.addPool name bytes with
      | .error _ => engine.withPools rest
      | .ok (id, engine) =>
          (id :: (engine.withPools rest).1, (engine.withPools rest).2)

/-! ## One call -/

theorem serve_of_absent (hpool : engine.pools[call.pool]? = none) :
    engine.serve call = (.refused (.unknownPool call.pool), engine) := by
  have hid : ¬call.pool < engine.pools.size := by
    have := Array.getElem?_eq_none_iff.1 hpool
    omega
  cases call with
  | allocate id key size =>
      change engine.pools[id]? = none at hpool
      simp [serve, allocate, poolAt, hpool, PoolAnswer.ofExcept, PoolCall.pool]
  | item call =>
      cases call with
      | install handle =>
          simp [serve, install, show ¬handle.pool < _ from hid,
            PoolAnswer.ofExcept, PoolCall.pool, ItemCall.pool]
      | find id key =>
          simp [serve, find, show ¬id < _ from hid, PoolAnswer.ofExcept,
            PoolCall.pool, ItemCall.pool]
      | remove id key =>
          simp [serve, remove, show ¬id < _ from hid, PoolAnswer.ofExcept,
            PoolCall.pool, ItemCall.pool]

theorem serve_item (engine : Engine) (call : ItemCall) :
    (engine.serve (.item call)).2 = engine.perform call := by
  cases call <;> rfl

theorem size_pools_serve (engine : Engine) (call : PoolCall) :
    (engine.serve call).2.pools.size = engine.pools.size := by
  cases call with
  | allocate id key size => rfl
  | item call => rw [serve_item, size_pools_perform]

theorem size_pools_after (engine : Engine) (calls : List PoolCall) :
    (engine.after calls).pools.size = engine.pools.size := by
  induction calls generalizing engine with
  | nil => rfl
  | cons call rest ih =>
      change ((engine.serve call).2.after rest).pools.size = _
      rw [ih, size_pools_serve]

/-- A call changes its own pool, from what is in it alone. -/
theorem getElem?_serve (engine : Engine) (call : PoolCall) (id : Nat) :
    (engine.serve call).2.pools[id]? =
      if id = call.pool then engine.pools[id]?.map fun pool => call.change pool
      else engine.pools[id]? := by
  cases call with
  | allocate other key size =>
      by_cases heq : id = other <;> simp [serve, PoolCall.change, heq]
  | item call =>
      rw [serve_item]
      change _ = if id = call.pool then _ else _
      cases hpool : engine.pools[call.pool]? with
      | none =>
          rw [perform_of_absent hpool]
          by_cases heq : id = call.pool <;> simp [heq, hpool]
      | some pool =>
          rw [perform_eq hpool, getElem?_setPool hpool]
          by_cases heq : id = call.pool <;> simp [heq, hpool, PoolCall.change]

theorem answer_agree
    (hpool : engine.pools[call.pool]? = other.pools[call.pool]?) :
    (engine.serve call).1 = (other.serve call).1 := by
  cases hother : other.pools[call.pool]? with
  | none =>
      rw [hother] at hpool
      rw [serve_of_absent hpool, serve_of_absent hother]
  | some pool =>
      rw [hother] at hpool
      cases call with
      | allocate id key size =>
          change engine.pools[id]? = some pool at hpool
          change other.pools[id]? = some pool at hother
          simp [serve, allocate, poolAt, hpool, hother]
      | item call =>
          cases call with
          | install handle =>
              simp only [serve, install_eq hpool, install_eq hother]
          | find id key =>
              change engine.pools[id]? = some pool at hpool
              change other.pools[id]? = some pool at hother
              simp only [serve, find_eq hpool, find_eq hother]
          | remove id key =>
              change engine.pools[id]? = some pool at hpool
              change other.pools[id]? = some pool at hother
              simp only [serve, remove_eq hpool, remove_eq hother]

/-! ## Runs -/

/-- What is seen of a pool in a run is what is seen when other calls are left
out, from any engine that agrees on the pool. -/
theorem observe_filter (hpool : engine.pools[id]? = other.pools[id]?)
    (calls : List PoolCall) :
    (engine.observe calls).filter
        (fun observation => observation.call.pool = id) =
      other.observe (calls.filter fun call => call.pool = id) := by
  induction calls generalizing engine other with
  | nil => rfl
  | cons call rest ih =>
      -- A call on the pool keeps the two engines in agreement on it; any other
      -- is made in one of them only, and leaves the pool as it is.
      by_cases hcall : call.pool = id
      · subst hcall
        have hnext : (engine.serve call).2.pools[call.pool]? =
            (other.serve call).2.pools[call.pool]? := by
          rw [getElem?_serve, getElem?_serve, hpool]
        simp only [observe, ramCount, nvmCount, List.filter_cons, decide_true,
          if_true, answer_agree hpool, hnext, ih hnext]
      · have hnext : (engine.serve call).2.pools[id]? = other.pools[id]? := by
          rw [getElem?_serve, if_neg (Ne.symm hcall), hpool]
        simp only [observe, List.filter_cons, hcall, decide_false,
          Bool.false_eq_true, if_false]
        exact ih hnext

/-! ## Pools that were handed out -/

theorem withPools_spec (engine : Engine) (requests : List (String × Nat)) :
    ∃ count,
      (engine.withPools requests).1 = List.range' engine.pools.size count ∧
      (engine.withPools requests).2.pools.size =
        engine.pools.size + count := by
  induction requests generalizing engine with
  | nil => exact ⟨0, rfl, rfl⟩
  | cons request rest ih =>
      obtain ⟨name, bytes⟩ := request
      cases hadd : engine.addPool name bytes with
      | error e =>
          simp only [withPools, hadd]
          exact ih engine
      | ok added =>
          obtain ⟨number, next⟩ := added
          obtain ⟨rfl, hpushed, -⟩ := addPool_eq hadd
          have hsize : next.pools.size = engine.pools.size + 1 := by
            rw [hpushed, Array.size_push]
          obtain ⟨count, hids, hpools⟩ := ih next
          refine ⟨count + 1, ?_, ?_⟩
          · simp only [withPools, hadd, hids, hsize, List.range'_succ]
          · simp only [withPools, hadd, hpools, hsize]
            omega

theorem absent_of_notMem {ramBytes : Nat} {hierarchy : Hierarchy}
    (h : create ramBytes hierarchy = .ok engine)
    {requests : List (String × Nat)}
    (hid : id ∉ (engine.withPools requests).1) (before : List PoolCall) :
    ((engine.withPools requests).2.after before).pools[id]? = none := by
  obtain ⟨count, hids, hsize⟩ := engine.withPools_spec requests
  have hnone : engine.pools.size = 0 := by
    rw [create_eq h]
    rfl
  rw [hnone] at hids hsize
  rw [hids, List.mem_range'_1] at hid
  rw [Array.getElem?_eq_none_iff, size_pools_after, hsize]
  omega

/-! ## Isolation -/

/-- In every run on the pools of an engine, what is seen of one pool does not
depend on the calls on other pools, and a buffer belongs to the pool that it was
asked of.  A call on a pool that was never handed out is refused and leaves the
engine as it is. -/
theorem pools_are_isolated {ramBytes : Nat} {hierarchy : Hierarchy}
    {opened : Engine} (hcreate : create ramBytes hierarchy = .ok opened)
    (requests : List (String × Nat)) :
    let ids := (opened.withPools requests).1
    let engine := (opened.withPools requests).2
    (∀ calls id,
      (engine.observe calls).filter
          (fun observation => observation.call.pool = id) =
        engine.observe (calls.filter fun call => call.pool = id)) ∧
    (∀ before id key size handle,
      ((engine.after before).serve (.allocate id key size)).1 =
          .allocated (some handle) →
        handle.pool = id) ∧
    ∀ before call, call.pool ∉ ids →
      (engine.after before).serve call =
        (.refused (.unknownPool call.pool), engine.after before) := by
  intro ids engine
  refine ⟨fun calls id => observe_filter rfl calls, ?_, ?_⟩
  · intro before id key size handle hanswer
    cases hallocate : (engine.after before).allocate id key size with
    | error e => simp [serve, hallocate, PoolAnswer.ofExcept] at hanswer
    | ok granted =>
        simp only [serve, hallocate, PoolAnswer.ofExcept,
          PoolAnswer.allocated.injEq] at hanswer
        subst hanswer
        exact (admits_of_allocate hallocate).2.1
  · intro before call hcall
    exact serve_of_absent (absent_of_notMem hcreate hcall before)

theorem pools_are_isolated_twoPools :
    create 8 Session.smallHierarchy = .ok Session.smallEngine ∧
      let engine :=
        (Session.smallEngine.withPools [("first", 4), ("second", 4)]).2
      (engine.observe
          [.item (.install ⟨0, [1], [7]⟩), .item (.find 1 [1]),
            .item (.remove 0 [1]), .allocate 1 [2] 3]).filter
          (fun observation => observation.call.pool = 1) =
        engine.observe [.item (.find 1 [1]), .allocate 1 [2] 3] ∧
      engine.serve (.item (.find 2 [1])) =
        (.refused (.unknownPool 2), engine) := by
  refine ⟨Session.create_smallEngine, ?_⟩
  intro engine
  obtain ⟨hseen, -, hrefused⟩ := pools_are_isolated Session.create_smallEngine
    [("first", 4), ("second", 4)]
  exact ⟨hseen _ 1, hrefused [] (.item (.find 2 [1])) (by decide)⟩

end Engine

end TieredCache
