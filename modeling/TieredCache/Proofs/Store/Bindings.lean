import Mathlib
import TieredCache.Proofs.Store.Affinity

/-!
# Workers and their shards

A worker goes by the first of its registrations that succeeds, whatever comes
after.  Where reads go to the shards of workers, one that never registered reads
nothing and changes nothing.
-/

namespace TieredCache

structure Registration where
  worker : Nat
  shard : Nat
  answer : Except RoutingError Nat

namespace Registration

variable {worker : Nat} {log : List Registration}

/-- The shard that a worker asked for when it succeeded first. -/
def firstShard? (worker : Nat) (log : List Registration) : Option Nat :=
  (log.find? fun entry => entry.worker = worker && entry.answer.isOk).map shard

theorem firstShard?_concat_error (worker : Nat) (log : List Registration)
    (other number : Nat) (e : RoutingError) :
    firstShard? worker (log ++ [⟨other, number, .error e⟩]) =
      firstShard? worker log := by
  simp [firstShard?, List.find?_append, Except.isOk, Except.toBool]

theorem firstShard?_concat_ok (worker : Nat) (log : List Registration)
    (other number bound : Nat) :
    firstShard? worker (log ++ [⟨other, number, .ok bound⟩]) =
      (firstShard? worker log).or
        (if other = worker then some number else none) := by
  unfold firstShard?
  rw [List.find?_append]
  cases log.find? fun entry => entry.worker = worker && entry.answer.isOk with
  | some entry => rfl
  | none =>
      by_cases hother : other = worker <;>
        simp [hother, Except.isOk, Except.toBool]

theorem firstShard?_eq_none_iff :
    firstShard? worker log = none ↔
      ∀ entry ∈ log, entry.worker = worker → ∃ e, entry.answer = .error e := by
  unfold firstShard?
  rw [Option.map_eq_none_iff, List.find?_eq_none]
  refine forall₂_congr fun entry _ => ?_
  cases entry.answer <;> simp [Except.isOk, Except.toBool]

end Registration

namespace Routing

open Registration

variable {routing next : Routing} {worker shard bound : Nat}
  {log : List Registration}

/-! ## One request -/

theorem register_eq_error_iff {e : RoutingError} :
    routing.register worker shard = .error e ↔
      routing.shardCount ≤ shard ∧
        e = .shardOutOfRange shard routing.shardCount ∨
      shard < routing.shardCount ∧ routing.workerLimit ≤ worker ∧
        e = .workerOutOfRange worker routing.workerLimit := by
  unfold register
  by_cases hshard : routing.shardCount ≤ shard
  · simp [hshard, eq_comm]
  · by_cases hworker : routing.workerLimit ≤ worker
    · simp [hshard, hworker, eq_comm]
      omega
    · simp only [if_neg hshard, if_neg hworker]
      cases routing.bindings[worker]? <;> simp [hshard, hworker]

theorem register_eq_ok
    (h : routing.register worker shard = .ok (bound, next)) :
    next.shardCount = routing.shardCount ∧
      next.workerLimit = routing.workerLimit ∧
      bound = routing.bindings[worker]?.getD shard ∧
      ∀ other : Nat, next.bindings[other]? =
        if other = worker then some bound else routing.bindings[other]? := by
  unfold register at h
  split at h
  · cases h
  · split at h
    · cases h
    · split at h
      · rename_i hbound
        cases h
        refine ⟨rfl, rfl, by rw [hbound, Option.getD_some], ?_⟩
        intro other
        split
        · rename_i hother
          rw [hother, hbound]
        · rfl
      · rename_i hunbound
        cases h
        refine ⟨rfl, rfl, by rw [hunbound, Option.getD_none], ?_⟩
        intro other
        by_cases hother : other = worker
        · rw [if_pos hother, hother]
          exact Std.HashMap.getElem?_insert_self
        · rw [if_neg hother]
          simp [Std.HashMap.getElem?_insert, Ne.symm hother]

theorem shardOfWorker_eq (routing : Routing) (worker : Nat) :
    routing.shardOfWorker worker =
      match routing.bindings[worker]? with
      | some shard => .ok shard
      | none => .error (.notRegistered worker) := rfl

/-! ## Requests one after another -/

def enroll (state : Routing × List Registration) (request : Nat × Nat) :
    Routing × List Registration :=
  match state.1.register request.1 request.2 with
  | .error e => (state.1, state.2 ++ [⟨request.1, request.2, .error e⟩])
  | .ok (bound, next) => (next, state.2 ++ [⟨request.1, request.2, .ok bound⟩])

def enrolled (routing : Routing) (requests : List (Nat × Nat)) :
    Routing × List Registration :=
  requests.foldl enroll (routing, [])

theorem enrolled_concat (routing : Routing) (requests : List (Nat × Nat))
    (request : Nat × Nat) :
    routing.enrolled (requests ++ [request]) =
      enroll (routing.enrolled requests) request := by
  simp [enrolled]

theorem requests_enrolled (routing : Routing) (requests : List (Nat × Nat)) :
    (routing.enrolled requests).2.map
      (fun entry => (entry.worker, entry.shard)) = requests := by
  induction requests using List.reverseRecOn with
  | nil => rfl
  | append_singleton requests request ih =>
      rw [enrolled_concat, enroll]
      cases (routing.enrolled requests).1.register request.1 request.2 <;>
        simp [ih]

/-- Workers are bound as a list of their registrations says. -/
structure BoundBy (routing start : Routing) (log : List Registration) :
    Prop where
  shardCount : routing.shardCount = start.shardCount
  workerLimit : routing.workerLimit = start.workerLimit
  bindings : ∀ worker : Nat,
    routing.bindings[worker]? = firstShard? worker log
  answers : ∀ entry ∈ log, ∀ bound, entry.answer = .ok bound →
    firstShard? entry.worker log = some bound

theorem BoundBy.enroll {state : Routing × List Registration}
    (h : state.1.BoundBy routing state.2) (request : Nat × Nat) :
    (enroll state request).1.BoundBy routing (enroll state request).2 := by
  unfold Routing.enroll
  cases hregister : state.1.register request.1 request.2 with
  | error e =>
      refine ⟨h.shardCount, h.workerLimit, ?_, ?_⟩
      · intro worker
        rw [firstShard?_concat_error]
        exact h.bindings worker
      · intro entry hentry bound hok
        rw [firstShard?_concat_error]
        rcases List.mem_append.1 hentry with hold | hlast
        · exact h.answers entry hold bound hok
        · rw [List.mem_singleton.1 hlast] at hok
          cases hok
  | ok registered =>
      obtain ⟨bound, next⟩ := registered
      obtain ⟨hcount, hlimit, hbound, hbindings⟩ := register_eq_ok hregister
      rw [h.bindings] at hbound
      refine ⟨hcount.trans h.shardCount, hlimit.trans h.workerLimit, ?_, ?_⟩
      · intro worker
        rw [firstShard?_concat_ok, hbindings, h.bindings]
        by_cases hworker : worker = request.1
        · rw [if_pos hworker, if_pos hworker.symm, hworker, hbound]
          cases firstShard? request.1 state.2 <;> rfl
        · rw [if_neg hworker, if_neg (Ne.symm hworker), Option.or_none]
      · intro entry hentry answer hok
        rw [firstShard?_concat_ok]
        rcases List.mem_append.1 hentry with hold | hlast
        · rw [h.answers entry hold answer hok, Option.some_or]
        · rw [List.mem_singleton.1 hlast] at hok ⊢
          cases hok
          rw [if_pos rfl, hbound]
          cases firstShard? request.1 state.2 <;> rfl

theorem boundBy_enrolled
    (hunbound : ∀ worker : Nat, routing.bindings[worker]? = none)
    (requests : List (Nat × Nat)) :
    (routing.enrolled requests).1.BoundBy routing
      (routing.enrolled requests).2 := by
  induction requests using List.reverseRecOn with
  | nil =>
      refine ⟨rfl, rfl, hunbound, ?_⟩
      intro entry hentry
      cases hentry
  | append_singleton requests request ih =>
      rw [enrolled_concat]
      exact ih.enroll request

theorem BoundBy.shardOfWorker {start : Routing} (h : routing.BoundBy start log)
    (worker : Nat) :
    routing.shardOfWorker worker =
      match firstShard? worker log with
      | some shard => .ok shard
      | none => .error (.notRegistered worker) := by
  rw [shardOfWorker_eq, h.bindings]

theorem shardOfWorker_enroll_of_ne (state : Routing × List Registration)
    {request : Nat × Nat} {other : Nat} (hother : other ≠ request.1) :
    (enroll state request).1.shardOfWorker other =
      state.1.shardOfWorker other := by
  unfold enroll
  cases hregister : state.1.register request.1 request.2 with
  | error e => rfl
  | ok registered =>
      obtain ⟨-, -, -, hbindings⟩ := register_eq_ok hregister
      simp only [shardOfWorker_eq, hbindings, if_neg hother]

theorem shardOfWorker_enroll_of_bound {state : Routing × List Registration}
    (h : state.1.shardOfWorker worker = .ok bound) (request : Nat × Nat) :
    (enroll state request).1.shardOfWorker worker = .ok bound := by
  unfold enroll
  cases hregister : state.1.register request.1 request.2 with
  | error e => exact h
  | ok registered => exact shardOfWorker_register hregister h

theorem request_of_shardOfWorker_enroll {state : Routing × List Registration}
    {request : Nat × Nat} (hunbound : state.1.bindings[worker]? = none)
    (h : (enroll state request).1.shardOfWorker worker = .ok shard) :
    request = (worker, shard) := by
  have hworker : worker = request.1 := by
    by_contra hother
    rw [shardOfWorker_enroll_of_ne state hother, shardOfWorker_eq,
      hunbound] at h
    cases h
  unfold enroll at h
  cases hregister : state.1.register request.1 request.2 with
  | error e =>
      simp only [hregister, shardOfWorker_eq, hunbound] at h
      cases h
  | ok registered =>
      obtain ⟨-, -, hbound, hbindings⟩ := register_eq_ok hregister
      rw [← hworker, hunbound, Option.getD_none] at hbound
      simp only [hregister, shardOfWorker_eq, hbindings, if_pos hworker] at h
      cases h
      rw [hworker, hbound]

end Routing

/-! ## Stores -/

/-- A call on a store, or a registration with its routing in which the worker
chooses the shard. -/
inductive RoutedCall where
  | serve (call : StoreCall)
  | bind (worker shard : Nat)
  deriving DecidableEq, Repr

def RoutedCall.request? (shardCount : Nat) : RoutedCall → Option (Nat × Nat)
  | .serve (.register worker) => some (worker, worker % shardCount)
  | .serve _ => none
  | .bind worker shard => some (worker, shard)

theorem RoutedCall.of_request? {call : RoutedCall}
    {shardCount worker shard : Nat}
    (h : call.request? shardCount = some (worker, shard)) :
    call = .serve (.register worker) ∧ shard = worker % shardCount ∨
      call = .bind worker shard := by
  cases call with
  | bind other number =>
      cases h
      exact .inr rfl
  | serve call =>
      cases call with
      | register other =>
          cases h
          exact .inl ⟨rfl, rfl⟩
      | _ => cases h

namespace Store

open Routing

variable {store : Store} {settings : Settings} {worker shard : Nat}

def follow (store : Store) : RoutedCall → Store
  | .serve call => (store.answer call).2
  | .bind worker shard =>
      match store.routing.register worker shard with
      | .error _ => store
      | .ok (_, routing) => { store with routing }

def followAll (store : Store) (calls : List RoutedCall) : Store :=
  calls.foldl follow store

theorem followAll_concat (store : Store) (calls : List RoutedCall)
    (call : RoutedCall) :
    store.followAll (calls ++ [call]) = (store.followAll calls).follow call := by
  simp [followAll]

theorem readRouting_follow (store : Store) (call : RoutedCall) :
    (store.follow call).readRouting = store.readRouting := by
  cases call with
  | serve call =>
      obtain ⟨engine, routing, hanswer, -⟩ := answer_snd store call
      simp only [follow, hanswer]
  | bind worker shard =>
      simp only [follow]
      cases store.routing.register worker shard <;> rfl

theorem routing_follow (store : Store) (call : RoutedCall)
    (log : List Registration) :
    (store.follow call).routing =
      match call.request? store.routing.shardCount with
      | some request => (enroll (store.routing, log) request).1
      | none => store.routing := by
  cases call with
  | bind worker shard =>
      simp only [follow, RoutedCall.request?, enroll]
      cases store.routing.register worker shard <;> rfl
  | serve call =>
      by_cases hcall : ∃ worker, call = .register worker
      · obtain ⟨worker, rfl⟩ := hcall
        simp only [follow, RoutedCall.request?, enroll, answer, register]
        cases store.routing.register worker
          (worker % store.routing.shardCount) <;> rfl
      · obtain ⟨engine, routing, hanswer, hrouting⟩ := answer_snd store call
        have hsame := hrouting (not_exists.1 hcall)
        have hnone : RoutedCall.request? store.routing.shardCount
            (.serve call) = none := by
          cases call with
          | register worker => exact absurd ⟨worker, rfl⟩ hcall
          | _ => rfl
        rw [hnone]
        simp only [follow, hanswer, hsame]

def registrations (store : Store) (calls : List RoutedCall) :
    Routing × List Registration :=
  store.routing.enrolled
    (calls.filterMap (RoutedCall.request? store.routing.shardCount))

theorem followAll_spec
    (hunbound : ∀ worker : Nat, store.routing.bindings[worker]? = none)
    (calls : List RoutedCall) :
    (store.followAll calls).routing = (store.registrations calls).1 ∧
      (store.followAll calls).readRouting = store.readRouting := by
  induction calls using List.reverseRecOn with
  | nil => exact ⟨rfl, rfl⟩
  | append_singleton calls call ih =>
      obtain ⟨hrouting, hreads⟩ := ih
      have hcount : (store.followAll calls).routing.shardCount =
          store.routing.shardCount := by
        rw [hrouting]
        exact (boundBy_enrolled hunbound _).shardCount
      rw [followAll_concat, readRouting_follow]
      refine ⟨?_, hreads⟩
      rw [routing_follow _ call (store.registrations calls).2, hcount, hrouting]
      unfold registrations
      rw [List.filterMap_append]
      cases hrequest : call.request? store.routing.shardCount with
      | none => simp [hrequest]
      | some request =>
          simp only [List.filterMap_cons, List.filterMap_nil, hrequest]
          rw [enrolled_concat]

/-- A worker that is bound was so by a call that found it unbound. -/
theorem binding_call
    (hunbound : ∀ worker : Nat, store.routing.bindings[worker]? = none)
    {calls : List RoutedCall}
    (hworker : (store.followAll calls).routing.shardOfWorker worker =
      .ok shard) :
    ∃ before call, before ++ [call] <+: calls ∧
      (store.followAll before).routing.shardOfWorker worker =
        .error (.notRegistered worker) ∧
      (call = .serve (.register worker) ∧
          shard = worker % store.routing.shardCount ∨
        call = .bind worker shard) := by
  induction calls using List.reverseRecOn with
  | nil => simp [followAll, shardOfWorker_eq, hunbound worker] at hworker
  | append_singleton calls call ih =>
      have hcount : (store.followAll calls).routing.shardCount =
          store.routing.shardCount := by
        rw [(followAll_spec hunbound calls).1]
        exact (boundBy_enrolled hunbound _).shardCount
      rw [followAll_concat, routing_follow _ call [], hcount] at hworker
      cases hbound : (store.followAll calls).routing.bindings[worker]? with
      | some earlier =>
          have hearlier := shardOfWorker_eq_ok_iff.2 hbound
          -- The worker was bound before this call, which changes nothing of it.
          have hsame : shard = earlier := by
            cases hrequest : call.request? store.routing.shardCount with
            | none =>
                simp only [hrequest, hearlier] at hworker
                exact (Except.ok.inj hworker).symm
            | some request =>
                simp only [hrequest] at hworker
                rw [shardOfWorker_enroll_of_bound hearlier request] at hworker
                exact (Except.ok.inj hworker).symm
          rw [← hsame] at hearlier
          obtain ⟨before, first, hbefore, hfirst⟩ := ih hearlier
          exact ⟨before, first, hbefore.trans (List.prefix_append _ _), hfirst⟩
      | none =>
          have hunregistered : (store.followAll calls).routing.shardOfWorker
              worker = .error (.notRegistered worker) := by
            rw [shardOfWorker_eq, hbound]
          refine ⟨calls, call, List.prefix_rfl, hunregistered, ?_⟩
          cases hrequest : call.request? store.routing.shardCount with
          | none =>
              simp only [hrequest, hunregistered] at hworker
              cases hworker
          | some request =>
              simp only [hrequest] at hworker
              obtain rfl := request_of_shardOfWorker_enroll hbound hworker
              exact RoutedCall.of_request? hrequest

theorem unregistered_reads (haffinity : store.readRouting = .affinity)
    (hworker : store.routing.shardOfWorker worker =
      .error (.notRegistered worker)) :
    (∀ key names, store.read worker key names =
      (.error (.routing (.notRegistered worker)), store)) ∧
    ∀ start count names, store.scan worker start count names =
      (.error (.reported (.routing (.notRegistered worker))), store) := by
  have hshard : store.readShard worker =
      .error (.routing (.notRegistered worker)) := by
    simp only [readShard, haffinity, hworker]
  constructor
  · intro key names
    rw [read, hshard]
  · intro start count names
    rw [scan, hshard]

/-! ## The first binding -/

/-- After any requests to routing a worker goes to the shard of its first that
succeeded, which is what all that succeeded were answered; a request fails just
for a shard or a worker out of range, and a failure changes nothing, as a
success does for other workers.  In a store whose reads go to the shards of
workers, one that never succeeded reads and scans nothing and changes nothing;
any other goes to the shard of its number, unless its routing was asked for
another one first. -/
theorem first_binding_stays :
    (∀ shardCount workerLimit routing,
      Routing.create shardCount workerLimit = .ok routing → ∀ requests,
      let reached := (routing.enrolled requests).1
      let log := (routing.enrolled requests).2
      log.map (fun entry => (entry.worker, entry.shard)) = requests ∧
      (∀ worker, reached.shardOfWorker worker =
        match Registration.firstShard? worker log with
        | some shard => .ok shard
        | none => .error (.notRegistered worker)) ∧
      (∀ entry ∈ log, ∀ bound, entry.answer = .ok bound →
        reached.shardOfWorker entry.worker = .ok bound) ∧
      ∀ worker shard,
        let next := (routing.enrolled (requests ++ [(worker, shard)])).1
        (∀ e, reached.register worker shard = .error e ↔
          shardCount ≤ shard ∧ e = .shardOutOfRange shard shardCount ∨
          shard < shardCount ∧ workerLimit ≤ worker ∧
            e = .workerOutOfRange worker workerLimit) ∧
        (∀ e, reached.register worker shard = .error e → next = reached) ∧
        ∀ other, other ≠ worker →
          next.shardOfWorker other = reached.shardOfWorker other) ∧
    ∀ settings store, create settings = .ok store →
      settings.readRouting = .affinity → ∀ calls,
      let reached := store.followAll calls
      let log := (store.registrations calls).2
      reached.routing = (store.registrations calls).1 ∧
      (∀ worker,
        (∀ entry ∈ log, entry.worker = worker → ∃ e, entry.answer = .error e) →
        (∀ key names, reached.read worker key names =
          (.error (.routing (.notRegistered worker)), reached)) ∧
        ∀ start count names, reached.scan worker start count names =
          (.error (.reported (.routing (.notRegistered worker))), reached)) ∧
      ∀ worker shard,
        Registration.firstShard? worker log = some shard →
        reached.readShard worker = .ok (fun _ => shard) ∧
        (shard = worker % settings.poolCount.toNat ∨
          ∃ before, before ++ [.bind worker shard] <+: calls ∧
            (store.followAll before).routing.shardOfWorker worker =
              .error (.notRegistered worker)) := by
  constructor
  · intro shardCount workerLimit routing hcreate requests reached log
    obtain ⟨hunbound, hcount, hlimit⟩ := unbound_create hcreate
    have h : reached.BoundBy routing log := boundBy_enrolled hunbound requests
    refine ⟨requests_enrolled routing requests, h.shardOfWorker, ?_, ?_⟩
    · intro entry hentry bound hok
      rw [h.shardOfWorker, h.answers entry hentry bound hok]
    · intro worker shard next
      have hnext : next = (enroll (reached, log) (worker, shard)).1 := by
        simp only [next, enrolled_concat]
        rfl
      refine ⟨?_, ?_, ?_⟩
      · intro e
        rw [register_eq_error_iff, h.shardCount, h.workerLimit, hcount, hlimit]
      · intro e hrefused
        simp only [hnext, enroll, hrefused]
      · intro other hother
        rw [hnext]
        exact shardOfWorker_enroll_of_ne (reached, log) hother
  · intro settings store hcreate haffinity calls reached log
    have hfresh := fresh_create hcreate
    obtain ⟨hrouting, hreads⟩ := followAll_spec hfresh.unbound calls
    have h : reached.routing.BoundBy store.routing log := by
      rw [hrouting]
      exact boundBy_enrolled hfresh.unbound _
    have hbyWorker : reached.readRouting = .affinity := by
      rw [hreads, hfresh.readRouting, haffinity]
    refine ⟨hrouting, ?_, ?_⟩
    · intro worker hnone
      apply unregistered_reads hbyWorker
      rw [h.shardOfWorker, Registration.firstShard?_eq_none_iff.2 hnone]
    · intro worker shard hfirst
      have hworker : reached.routing.shardOfWorker worker = .ok shard := by
        rw [h.shardOfWorker, hfirst]
      constructor
      · simp only [readShard, hbyWorker, hworker]
      · obtain ⟨before, call, hbefore, hunregistered, hcall⟩ :=
          binding_call hfresh.unbound hworker
        rcases hcall with ⟨-, hshard⟩ | rfl
        · rw [hfresh.shards] at hshard
          exact .inl hshard
        · exact .inr ⟨before, hbefore, hunregistered⟩

/-- A worker gets its second shard after the first was out of range, and keeps
it; in a store one that is bound to shard 1 first does not go to that of its
number, and another one that never registered reads nothing. -/
theorem first_binding_stays_twoShards :
    (∃ routing, Routing.create 2 3 = .ok routing ∧
      let reached := (routing.enrolled [(0, 2), (0, 1), (0, 0), (5, 0)]).1
      reached.shardOfWorker 0 = .ok 1 ∧
        reached.shardOfWorker 5 = .error (.notRegistered 5)) ∧
    ∃ store, create (affinitySettings 2) = .ok store ∧
      (affinitySettings 2).readRouting = .affinity ∧
      let reached := store.followAll [.bind 0 1, .serve (.register 0)]
      reached.readShard 0 = .ok (fun _ => 1) ∧
        reached.read 2 [5] none =
          (.error (.routing (.notRegistered 2)), reached) := by
  obtain ⟨hroutings, hstores⟩ := first_binding_stays
  constructor
  · obtain ⟨routing, hcreate⟩ : ∃ routing,
        Routing.create 2 3 = .ok routing := ⟨_, rfl⟩
    obtain ⟨-, hshards, -⟩ :=
      hroutings 2 3 routing hcreate [(0, 2), (0, 1), (0, 0), (5, 0)]
    cases hcreate
    refine ⟨_, rfl, ?_, ?_⟩
    · rw [hshards 0]
      decide +kernel
    · rw [hshards 5]
      decide +kernel
  · obtain ⟨store, hcreate⟩ : ∃ store,
        create (affinitySettings 2) = .ok store := ⟨_, rfl⟩
    have hrouting : store.routing = ⟨2, 1024, ∅, by decide⟩ := by
      cases hcreate
      rfl
    obtain ⟨-, hunbound, hbound⟩ := hstores _ store hcreate rfl
      [.bind 0 1, .serve (.register 0)]
    refine ⟨store, hcreate, rfl, (hbound 0 1 ?_).1, (hunbound 2 ?_).1 [5] none⟩
    · rw [registrations, hrouting]
      decide +kernel
    · rw [← Registration.firstShard?_eq_none_iff, registrations, hrouting]
      decide +kernel

end Store

end TieredCache
