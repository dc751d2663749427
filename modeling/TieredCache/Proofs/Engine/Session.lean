import Mathlib
import TieredCache.Proofs.Engine.Items

/-!
# Sessions with an engine

A client adds pools, asks for buffers, fills them and installs them, each at any
later time, and looks keys up and removes them.  Beside a session run ledgers,
one for each pool: the listed ones follow what is dropped, the intended ones do
not.
-/

namespace TieredCache

/-- What a client does.  Buffers are known by their places among those that have
not been installed yet. -/
inductive EngineCall where
  | addPool (name : String) (bytes : Nat)
  | allocate (id : Nat) (key : Bytes) (size : Nat)
  | write (index : Nat) (data : Bytes) (offset : Nat)
  | install (index : Nat)
  | find (id : Nat) (key : Bytes)
  | remove (id : Nat) (key : Bytes)
  deriving DecidableEq, Repr

structure Session where
  engine : Engine
  handles : List WriteHandle

namespace Session

def perform (session : Session) : EngineCall → Session
  | .addPool name bytes =>
      match session.engine.addPool name bytes with
      | .error _ => session
      | .ok (_, engine) => { session with engine }
  | .allocate id key size =>
      match session.engine.allocate id key size with
      | .ok (some handle) =>
          { session with handles := session.handles ++ [handle] }
      | .ok none => session
      | .error _ => session
  | .write index data offset =>
      match session.handles[index]? with
      | some handle =>
          { session with
            handles := session.handles.set index (handle.write data offset) }
      | none => session
  | .install index =>
      match session.handles[index]? with
      | some handle =>
          ⟨(session.engine.install handle).2, session.handles.eraseIdx index⟩
      | none => session
  | .find id key =>
      { session with engine := (session.engine.find id key).2 }
  | .remove id key =>
      { session with engine := (session.engine.remove id key).2 }

def start (engine : Engine) : Session := ⟨engine, []⟩

def run (session : Session) (calls : List EngineCall) : Session :=
  calls.foldl perform session

/-! ## Ledgers -/

def item? (session : Session) : EngineCall → Option ItemCall
  | .install index => session.handles[index]?.map ItemCall.install
  | .find id key => some (.find id key)
  | .remove id key => some (.remove id key)
  | .addPool _ _ => none
  | .allocate _ _ _ => none
  | .write _ _ _ => none

def dropped (session : Session) (call : EngineCall) : List Bytes :=
  match session.item? call with
  | some item => session.engine.dropped item
  | none => []

/-- What a call makes of the ledgers, with what it drops struck out. -/
def revise (session : Session) (call : EngineCall)
    (ledgers : Nat → Ledger Bytes) : Nat → Ledger Bytes :=
  match session.item? call with
  | some item => session.engine.revise item ledgers
  | none => ledgers

def intend (session : Session) (call : EngineCall)
    (ledgers : Nat → Ledger Bytes) : Nat → Ledger Bytes :=
  match session.item? call with
  | some item =>
      Function.update ledgers item.pool (item.enter (ledgers item.pool))
  | none => ledgers

section Histories

variable (next : Session → EngineCall → (Nat → Ledger Bytes) →
  Nat → Ledger Bytes)

def ledgersBy (session : Session) (calls : List EngineCall) :
    Nat → Ledger Bytes :=
  (calls.foldl
    (fun (state : Session × (Nat → Ledger Bytes)) call =>
      (state.1.perform call, next state.1 call state.2))
    (session, fun _ => [])).2

theorem foldl_fst (session : Session) (ledgers : Nat → Ledger Bytes)
    (calls : List EngineCall) :
    (calls.foldl
      (fun (state : Session × (Nat → Ledger Bytes)) call =>
        (state.1.perform call, next state.1 call state.2))
      (session, ledgers)).1 = session.run calls := by
  induction calls generalizing session ledgers with
  | nil => rfl
  | cons call rest ih =>
      rw [List.foldl_cons, ih]
      rfl

theorem ledgersBy_concat (session : Session) (calls : List EngineCall)
    (call : EngineCall) :
    session.ledgersBy next (calls ++ [call]) =
      next (session.run calls) call (session.ledgersBy next calls) := by
  unfold ledgersBy
  rw [List.foldl_append, List.foldl_cons, List.foldl_nil, foldl_fst]

end Histories

def listed (session : Session) (calls : List EngineCall) :
    Nat → Ledger Bytes :=
  session.ledgersBy revise calls

def intended (session : Session) (calls : List EngineCall) :
    Nat → Ledger Bytes :=
  session.ledgersBy intend calls

theorem listed_concat (session : Session) (calls : List EngineCall)
    (call : EngineCall) :
    session.listed (calls ++ [call]) =
      (session.run calls).revise call (session.listed calls) :=
  ledgersBy_concat revise session calls call

theorem intended_concat (session : Session) (calls : List EngineCall)
    (call : EngineCall) :
    session.intended (calls ++ [call]) =
      (session.run calls).intend call (session.intended calls) :=
  ledgersBy_concat intend session calls call

theorem run_concat (session : Session) (calls : List EngineCall)
    (call : EngineCall) :
    session.run (calls ++ [call]) = (session.run calls).perform call := by
  simp [run]

/-! ## What every call keeps -/

variable {session : Session} {ledgers : Nat → Ledger Bytes}

structure Sound (session : Session) (ledgers : Nat → Ledger Bytes) :
    Prop where
  keeps : session.engine.Keeps ledgers
  admits : ∀ handle ∈ session.handles, session.engine.Admits handle

theorem sound_start {ramBytes : Nat} {hierarchy : Hierarchy} {engine : Engine}
    (h : Engine.create ramBytes hierarchy = .ok engine) :
    (start engine).Sound fun _ => [] := by
  constructor
  · exact Engine.keeps_create h
  · intro handle hhandle
    simp [start] at hhandle

theorem engine_perform {call : EngineCall} {item : ItemCall}
    (hitem : session.item? call = some item) :
    (session.perform call).engine = session.engine.perform item ∧
      ∀ handle ∈ (session.perform call).handles, handle ∈ session.handles := by
  cases call with
  | addPool name bytes => simp [item?] at hitem
  | allocate id key size => simp [item?] at hitem
  | write index data offset => simp [item?] at hitem
  | install index =>
      obtain ⟨handle, hhandle, rfl⟩ := Option.map_eq_some_iff.1 hitem
      simp only [perform, hhandle]
      exact ⟨rfl, fun other hother => List.mem_of_mem_eraseIdx hother⟩
  | find id key =>
      cases hitem
      exact ⟨rfl, fun handle hhandle => hhandle⟩
  | remove id key =>
      cases hitem
      exact ⟨rfl, fun handle hhandle => hhandle⟩

theorem Sound.permits (h : session.Sound ledgers) {call : EngineCall}
    {item : ItemCall} (hitem : session.item? call = some item) :
    session.engine.Permits item := by
  cases item with
  | install handle =>
      apply h.admits
      cases call with
      | install index =>
          obtain ⟨other, hother, heq⟩ := Option.map_eq_some_iff.1 hitem
          cases heq
          exact List.mem_of_getElem? hother
      | _ => simp [item?] at hitem
  | find id key => trivial
  | remove id key => trivial

theorem Sound.perform_other (h : session.Sound ledgers) {call : EngineCall}
    (hitem : session.item? call = none) :
    (session.perform call).Sound ledgers ∧
      (∀ id room, session.engine.room? id = some room →
        (session.perform call).engine.room? id = some room) ∧
      (session.perform call).engine.counters = session.engine.counters := by
  -- Calls that are refused leave the session as it is.
  have hrefused (hsame : session.perform call = session) :
      (session.perform call).Sound ledgers ∧
        (∀ id room, session.engine.room? id = some room →
          (session.perform call).engine.room? id = some room) ∧
        (session.perform call).engine.counters = session.engine.counters := by
    rw [hsame]
    exact ⟨h, fun id room hroom => hroom, rfl⟩
  cases call with
  | addPool name bytes =>
      cases hadd : session.engine.addPool name bytes with
      | error e => exact hrefused (by simp [Session.perform, hadd])
      | ok added =>
          obtain ⟨number, engine⟩ := added
          obtain ⟨hkeeps, hroom, -, hcounters⟩ := h.keeps.addPool hadd
          simp only [Session.perform, hadd]
          refine ⟨⟨hkeeps, ?_⟩, hroom, hcounters⟩
          intro handle hhandle
          have hadmits := h.admits handle hhandle
          rw [Engine.admits_iff] at hadmits ⊢
          obtain ⟨room, hold, hfits⟩ := hadmits
          exact ⟨room, hroom _ room hold, hfits⟩
  | allocate id key size =>
      cases hallocate : session.engine.allocate id key size with
      | error e => exact hrefused (by simp [Session.perform, hallocate])
      | ok granted =>
          cases granted with
          | none => exact hrefused (by simp [Session.perform, hallocate])
          | some handle =>
              simp only [Session.perform, hallocate]
              refine ⟨⟨h.keeps, ?_⟩, fun id room hroom => hroom, trivial⟩
              intro other hother
              rcases List.mem_append.1 hother with hold | hnew
              · exact h.admits other hold
              · rw [List.mem_singleton.1 hnew]
                exact (Engine.admits_of_allocate hallocate).1
  | write index data offset =>
      cases hhandle : session.handles[index]? with
      | none => exact hrefused (by simp [Session.perform, hhandle])
      | some handle =>
          simp only [Session.perform, hhandle]
          refine ⟨⟨h.keeps, ?_⟩, fun id room hroom => hroom, trivial⟩
          intro other hother
          rcases List.mem_or_eq_of_mem_set hother with hold | rfl
          · exact h.admits other hold
          · rw [Engine.admits_write]
            exact h.admits handle (List.mem_of_getElem? hhandle)
  | install index =>
      have hhandle : session.handles[index]? = none := by
        simpa [item?] using hitem
      exact hrefused (by simp [Session.perform, hhandle])
  | find id key => simp [item?] at hitem
  | remove id key => simp [item?] at hitem

theorem Sound.perform (h : session.Sound ledgers) (call : EngineCall) :
    (session.perform call).Sound (session.revise call ledgers) := by
  unfold revise
  cases hitem : session.item? call with
  | none => exact (h.perform_other hitem).1
  | some item =>
      obtain ⟨hengine, hhandles⟩ := engine_perform hitem
      have hpermits := h.permits hitem
      constructor
      · rw [hengine]
        exact h.keeps.perform hpermits
      · intro handle hhandle
        rw [hengine]
        exact h.keeps.admits_perform hpermits
          (h.admits handle (hhandles handle hhandle))

theorem Sound.room?_perform (h : session.Sound ledgers) (call : EngineCall)
    {id : Nat} {room : Nat × Nat}
    (hroom : session.engine.room? id = some room) :
    (session.perform call).engine.room? id = some room := by
  cases hitem : session.item? call with
  | none => exact (h.perform_other hitem).2.1 id room hroom
  | some item =>
      rw [(engine_perform hitem).1, h.keeps.room?_perform (h.permits hitem)]
      exact hroom

theorem Sound.nvmEvictions_perform (h : session.Sound ledgers)
    (call : EngineCall) :
    (session.perform call).engine.counters.nvmEvictions =
      session.engine.counters.nvmEvictions + (session.dropped call).length := by
  unfold dropped
  cases hitem : session.item? call with
  | none => rw [(h.perform_other hitem).2.2]; rfl
  | some item =>
      rw [(engine_perform hitem).1]
      exact Engine.nvmEvictions_perform _ item

theorem sound_run {ramBytes : Nat} {hierarchy : Hierarchy} {engine : Engine}
    (h : Engine.create ramBytes hierarchy = .ok engine)
    (calls : List EngineCall) :
    ((start engine).run calls).Sound ((start engine).listed calls) := by
  induction calls using List.reverseRecOn with
  | nil => exact sound_start h
  | append_singleton calls call ih =>
      rw [run_concat, listed_concat]
      exact ih.perform call

theorem room?_run {ramBytes : Nat} {hierarchy : Hierarchy} {engine : Engine}
    (hcreate : Engine.create ramBytes hierarchy = .ok engine)
    {before calls : List EngineCall} (hbefore : before <+: calls)
    {id : Nat} {room : Nat × Nat}
    (hroom : ((start engine).run before).engine.room? id = some room) :
    ((start engine).run calls).engine.room? id = some room := by
  obtain ⟨later, rfl⟩ := hbefore
  induction later using List.reverseRecOn with
  | nil =>
      rw [List.append_nil]
      exact hroom
  | append_singleton later call ih =>
      rw [← List.append_assoc, run_concat]
      exact (sound_run hcreate _).room?_perform call ih

end Session

end TieredCache
