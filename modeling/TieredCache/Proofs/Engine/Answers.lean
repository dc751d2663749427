import Mathlib
import TieredCache.Proofs.Engine.Session

/-!
# What an engine answers

After any session the engine answers from the listed ledgers.  Where what is
live in a pool always fits one of its tiers, those are the intended ones: the
pool loses nothing.
-/

namespace TieredCache.Session

variable {session : Session}

/-! ## Nothing is lost while the live keys fit -/

/-- After each install in a pool, one of its tiers has room for what is live
there. -/
def FitsThroughout (session : Session) (calls : List EngineCall) (id : Nat) :
    Prop :=
  ∀ before index handle room, before ++ [.install index] <+: calls →
    (session.run before).handles[index]? = some handle → handle.pool = id →
    (session.run before).engine.room? id = some room →
    (session.intended (before ++ [.install index]) id).size ≤
      max room.1 room.2

theorem FitsThroughout.of_prefix {calls longer : List EngineCall} {id : Nat}
    (h : session.FitsThroughout longer id) (hshort : calls <+: longer) :
    session.FitsThroughout calls id := by
  intro before index handle room hbefore
  exact h before index handle room (hbefore.trans hshort)

/-- The listed ledger of a pool is the intended one, and fits the pool. -/
structure Lossless (session : Session) (calls : List EngineCall) (id : Nat) :
    Prop where
  same : session.listed calls id = session.intended calls id
  fits : ∀ room, (session.run calls).engine.room? id = some room →
    (session.intended calls id).size ≤ max room.1 room.2

/-- What is intended for the pool of a call fits it after the call, when it
fitted before and does so after installs. -/
theorem FitsThroughout.enter {calls : List EngineCall} {call : EngineCall}
    {item : ItemCall}
    (hfits : session.FitsThroughout (calls ++ [call]) item.pool)
    (h : session.Lossless calls item.pool)
    (hitem : (session.run calls).item? call = some item)
    {room : Nat × Nat}
    (hroom : (session.run calls).engine.room? item.pool = some room) :
    (item.enter (session.intended calls item.pool)).size ≤
      max room.1 room.2 := by
  have hbefore := h.fits room hroom
  cases call with
  | addPool name bytes => simp [item?] at hitem
  | allocate id key size => simp [item?] at hitem
  | write index data offset => simp [item?] at hitem
  | install index =>
      obtain ⟨handle, hhandle, rfl⟩ := Option.map_eq_some_iff.1 hitem
      have hafter := hfits calls index handle room (List.prefix_refl _) hhandle
        rfl hroom
      rw [intended_concat, intend, hitem] at hafter
      simpa only [Function.update_self] using hafter
  | find id key =>
      cases hitem
      exact hbefore
  | remove id key =>
      cases hitem
      exact (Ledger.size_erase_le _ key).trans hbefore

theorem Lossless.dropped {calls : List EngineCall} {call : EngineCall}
    {item : ItemCall} (h : session.Lossless calls item.pool)
    (hsound : (session.run calls).Sound (session.listed calls))
    (hfits : session.FitsThroughout (calls ++ [call]) item.pool)
    (hitem : (session.run calls).item? call = some item) :
    (session.run calls).engine.dropped item = [] := by
  apply hsound.keeps.dropped_eq_nil (hsound.permits hitem)
  intro room hroom
  rw [h.same]
  exact hfits.enter h hitem hroom

theorem Lossless.concat {calls : List EngineCall} {call : EngineCall} {id : Nat}
    (h : session.Lossless calls id)
    (hsound : (session.run calls).Sound (session.listed calls))
    (hfits : session.FitsThroughout (calls ++ [call]) id) :
    session.Lossless (calls ++ [call]) id := by
  constructor
  · rw [listed_concat, intended_concat, revise, intend]
    cases hitem : (session.run calls).item? call with
    | none => exact h.same
    | some item =>
        by_cases hid : id = item.pool
        · subst hid
          simp only [Engine.revise, Function.update_self,
            h.dropped hsound hfits hitem, Ledger.eraseAll_nil, h.same]
        · simp only [Engine.revise, Function.update_of_ne hid, h.same]
  · intro room hroom
    rw [run_concat] at hroom
    rw [intended_concat, intend]
    cases hitem : (session.run calls).item? call with
    | none =>
        cases hold : (session.run calls).engine.room? id with
        | some old =>
            rw [hsound.room?_perform call hold] at hroom
            exact h.fits room (hold.trans hroom)
        | none =>
            -- The pool is new, and its ledger is still blank.
            have hblank : session.intended calls id = [] := by
              rw [← h.same]
              exact hsound.keeps.blank id (Engine.room?_eq_none_iff.1 hold)
            simp only [hblank]
            exact Nat.zero_le _
    | some item =>
        rw [(engine_perform hitem).1,
          hsound.keeps.room?_perform (hsound.permits hitem)] at hroom
        by_cases hid : id = item.pool
        · subst hid
          simp only [Function.update_self]
          exact hfits.enter h hitem hroom
        · simp only [Function.update_of_ne hid]
          exact h.fits room hroom

theorem lossless_run {ramBytes : Nat} {hierarchy : Hierarchy} {engine : Engine}
    (hcreate : Engine.create ramBytes hierarchy = .ok engine)
    {calls : List EngineCall} {id : Nat}
    (hfits : (start engine).FitsThroughout calls id) :
    (start engine).Lossless calls id := by
  induction calls using List.reverseRecOn with
  | nil =>
      constructor
      · rfl
      · intro room hroom
        exact Nat.zero_le _
  | append_singleton calls call ih =>
      have h := ih (hfits.of_prefix (List.prefix_append _ _))
      exact h.concat (sound_run hcreate calls) hfits

/-! ### Two keys in a pool whose RAM takes one of them -/

def smallHierarchy : Hierarchy where
  layout := .striping
  fast := ⟨"fast", 2⟩
  large := ⟨"large", 12⟩
  readerThreads := 1
  writerThreads := 1
  smallItems := none

def smallEngine : Engine :=
  { ramBytes := 8, reserved := 0, hierarchy := smallHierarchy, pools := #[]
    counters := {} }

theorem create_smallEngine :
    Engine.create 8 smallHierarchy = .ok smallEngine := rfl

def twoKeys : List EngineCall :=
  [.addPool "first" 4, .allocate 0 [1] 2, .allocate 0 [2] 2, .write 0 [7] 0,
    .install 0, .write 0 [8] 1, .install 0]

theorem twoKeys_fit : (start smallEngine).FitsThroughout twoKeys 0 := by
  intro before index handle room hbefore hhandle hid hroom
  have hsizes : ∀ count < 8,
      ((start smallEngine).intended (twoKeys.take count) 0).size ≤ 7 := by
    decide
  have hlength : before.length < 7 := by
    have := hbefore.length_le
    simp [twoKeys] at this
    omega
  have htake := List.prefix_iff_eq_take.1 hbefore
  rw [htake, List.length_append, List.length_singleton]
  have hlarge : room.2 = 7 := by
    cases before with
    | nil => simp [run, start, smallEngine, Engine.room?] at hroom
    | cons call rest =>
        obtain ⟨rfl, -⟩ := List.cons_prefix_cons.1 hbefore
        have hfirst : ((start smallEngine).run
            [.addPool "first" 4]).engine.room? 0 = some (4, 7) := by
          decide
        have hlater := room?_run create_smallEngine
          (List.prefix_append [.addPool "first" 4] rest) hfirst
        rw [List.singleton_append, hroom] at hlater
        rw [Option.some.inj hlater]
  have hsize := hsizes (before.length + 1) (by omega)
  exact hsize.trans (hlarge ▸ le_max_right _ _)

/-! ## The engine answers from its ledgers -/

/-- After any session a pool finds what its ledger lists and removes what is
there, from whichever tier; what was installed or found is in RAM afterwards,
and each key that any call drops is one more eviction. -/
theorem answers_from_listed {ramBytes : Nat} {hierarchy : Hierarchy}
    {engine : Engine} (hcreate : Engine.create ramBytes hierarchy = .ok engine)
    (calls : List EngineCall) :
    let session := (start engine).run calls
    let ledgers := (start engine).listed calls
    (∀ id key, id < session.engine.pools.size →
      (session.engine.find id key).1 = .ok ((ledgers id).value? key) ∧
      (session.engine.remove id key).1 =
        .ok ((ledgers id).value? key).isSome ∧
      (session.engine.find id key).2.inRam? id key = (ledgers id).value? key ∧
      (((ledgers id).value? key).isSome →
        key ∉ session.engine.dropped (.find id key))) ∧
    (∀ handle ∈ session.handles,
      (session.engine.install handle).1 = .ok () ∧
      (session.engine.install handle).2.inRam? handle.pool handle.key =
        some handle.memory ∧
      handle.key ∉ session.engine.dropped (.install handle)) ∧
    ∀ call, (session.perform call).engine.counters.nvmEvictions =
      session.engine.counters.nvmEvictions +
        (session.dropped call).length := by
  intro session ledgers
  have h : session.Sound ledgers := sound_run hcreate calls
  refine ⟨?_, ?_, fun call => h.nvmEvictions_perform call⟩
  · intro id key hid
    obtain ⟨hfind, hram⟩ := h.keeps.find hid key
    refine ⟨hfind, h.keeps.remove hid key, hram, ?_⟩
    intro hsome
    obtain ⟨value, hvalue⟩ := Option.isSome_iff_exists.1 hsome
    have hpermits : session.engine.Permits (.find id key) := trivial
    exact Engine.notMem_dropped (h.keeps.perform hpermits)
      (hram.trans hvalue)
  · intro handle hhandle
    have hadmits := h.admits handle hhandle
    have hpermits : session.engine.Permits (.install handle) := hadmits
    obtain ⟨hinstall, hram⟩ := h.keeps.install hadmits
    exact ⟨hinstall, hram,
      Engine.notMem_dropped (h.keeps.perform hpermits) hram⟩

/-- The first key has gone below RAM, and is found there and removed. -/
theorem answers_from_listed_twoKeys :
    Engine.create 8 smallHierarchy = .ok smallEngine ∧
      let session := (start smallEngine).run twoKeys
      (session.engine.find 0 [1]).1 = .ok (some [7, 0]) ∧
        (session.engine.remove 0 [1]).1 = .ok true := by
  refine ⟨create_smallEngine, ?_⟩
  intro session
  obtain ⟨hanswers, -, -⟩ := answers_from_listed create_smallEngine twoKeys
  have hpools : 0 < session.engine.pools.size := by
    decide
  obtain ⟨hfind, hremove, -⟩ := hanswers 0 [1] hpools
  have hvalue : ((start smallEngine).listed twoKeys 0).value? [1] =
      some [7, 0] := by
    rw [(lossless_run create_smallEngine twoKeys_fit).same]
    decide
  rw [hvalue] at hfind hremove
  exact ⟨hfind, hremove⟩

/-- While the live keys of a pool fit one of its tiers, nothing is dropped from
it, and it answers with the latest value of every key. -/
theorem nothing_lost_while_live_fits {ramBytes : Nat} {hierarchy : Hierarchy}
    {engine : Engine} (hcreate : Engine.create ramBytes hierarchy = .ok engine)
    (calls : List EngineCall) (id : Nat)
    (hfits : (start engine).FitsThroughout calls id) :
    (∀ before call item, before ++ [call] <+: calls →
      ((start engine).run before).item? call = some item → item.pool = id →
      ((start engine).run before).dropped call = []) ∧
    ∀ before, before <+: calls →
      let session := (start engine).run before
      let live := (start engine).intended before id
      id < session.engine.pools.size → ∀ key,
        (session.engine.find id key).1 = .ok (live.value? key) ∧
        (session.engine.remove id key).1 = .ok (live.value? key).isSome := by
  constructor
  · intro before call item hbefore hitem hid
    subst hid
    have hfits' := hfits.of_prefix hbefore
    have h := lossless_run hcreate
      (hfits'.of_prefix (List.prefix_append before [call]))
    unfold dropped
    rw [hitem]
    exact h.dropped (sound_run hcreate before) hfits' hitem
  · intro before hbefore session live hid key
    have hsound := sound_run hcreate before
    have h := lossless_run hcreate (hfits.of_prefix hbefore)
    have hlive : live = (start engine).listed before id := h.same.symm
    rw [hlive]
    exact ⟨(hsound.keeps.find hid key).1, hsound.keeps.remove hid key⟩

theorem nothing_lost_of_twoKeys :
    (start smallEngine).FitsThroughout twoKeys 0 ∧
      let session := (start smallEngine).run twoKeys
      (session.engine.find 0 [1]).1 = .ok (some [7, 0]) ∧
        (session.engine.find 0 [2]).1 = .ok (some [0, 8]) := by
  refine ⟨twoKeys_fit, ?_⟩
  intro session
  obtain ⟨-, hanswers⟩ :=
    nothing_lost_while_live_fits create_smallEngine twoKeys 0 twoKeys_fit
  have hpools : 0 < session.engine.pools.size := by
    decide
  have hlive := hanswers twoKeys (List.prefix_refl _) hpools
  have hfirst : ((start smallEngine).intended twoKeys 0).value? [1] =
      some [7, 0] := by
    decide
  have hsecond : ((start smallEngine).intended twoKeys 0).value? [2] =
      some [0, 8] := by
    decide
  constructor
  · rw [(hlive [1]).1, hfirst]
  · rw [(hlive [2]).1, hsecond]

end TieredCache.Session
