import Mathlib
import TieredCache.Proofs.Engine.Items
import TieredCache.Proofs.Row.RoundTrip
import TieredCache.Proofs.Row.Selection
import TieredCache.Proofs.Store.Scan
import TieredCache.Store.Basic

/-!
# The records of a store

A store whose reads go to the shards of keys serves the records of a ledger:
each pool keeps the rows of the records whose keys are of its shard.  Every
operation answers from the ledger, and changes it as asked apart from the keys
that the engine drops meanwhile.
-/

namespace TieredCache.Store

variable {store next : Store} {ledgers : Nat → Ledger Bytes}
  {records : Ledger Record} {key : Bytes} {record : Record} {fieldCount : Nat}

/-! ## What a reader is shown -/

/-- What a reader gets of a record that is there, or of none: all of it when it
has as many fields as records have, or what its row answers to the names. -/
def shown (fieldCount : Nat) (names : Option (List Bytes)) :
    Option Record → Except StoreError (Option Record)
  | none => .ok none
  | some record =>
      match names with
      | none =>
          if record.length = fieldCount then .ok (some record)
          else .error (.row (.incomplete fieldCount record.length))
      | some names =>
          match Row.encode record with
          | .error e => .error (.row e)
          | .ok row =>
              match Row.decodeSelected row names with
              | .error e => .error (.row e)
              | .ok fields => .ok (some fields)

/-- A store serves the records of a ledger from the ledgers of its pools. -/
structure Serves (store : Store) (fieldCount : Nat)
    (ledgers : Nat → Ledger Bytes) (records : Ledger Record) : Prop where
  keeps : store.engine.Keeps ledgers
  pools : store.engine.pools.size = store.routing.shardCount
  fields : store.fieldCount = fieldCount
  routing : store.readRouting = .key
  sharded : ∀ shard, ∀ key ∈ (ledgers shard).keys,
    store.routing.shardOfKey key = shard
  rows : ∀ key, (ledgers (store.routing.shardOfKey key)).value? key =
    (records.value? key).map Row.rowBytes
  fit : ∀ key record, records.value? key = some record →
    ∀ field ∈ record, Row.FieldFits field

def Places (routing : Routing) (ledgers : Nat → Ledger Bytes) : Prop :=
  ∀ shard, ∀ key ∈ (ledgers shard).keys, routing.shardOfKey key = shard

theorem places_revise {routing : Routing} (h : Places routing ledgers)
    {engine : Engine} {call : ItemCall}
    (hkeys : ∀ key ∈ (call.enter (ledgers call.pool)).keys,
      routing.shardOfKey key = call.pool) :
    Places routing (engine.revise call ledgers) := by
  intro shard key hkey
  by_cases hshard : shard = call.pool
  · rw [hshard, Engine.revise, Function.update_self,
      Ledger.mem_keys_eraseAll] at hkey
    rw [hshard]
    exact hkeys key hkey.1
  · rw [Engine.revise, Function.update_of_ne hshard] at hkey
    exact h shard key hkey

/-! ## Whole rows -/

theorem meets_row (hfit : ∀ field ∈ record, Row.FieldFits field) :
    Row.Meets (Row.Cursor.start (Row.rowBytes record)) record none :=
  Row.meets_rowBytes 0 hfit

theorem encode_of_fit (hfit : ∀ field ∈ record, Row.FieldFits field) :
    Row.encode record = .ok (Row.rowBytes record) :=
  Row.encode_eq_ok_iff.2 ⟨hfit, rfl⟩

theorem present_rowBytes (hfit : ∀ field ∈ record, Row.FieldFits field)
    (fieldCount : Nat) (names : Option (List Bytes)) :
    (match present fieldCount (Row.rowBytes record) names with
      | .error e => .error (.row e)
      | .ok fields => .ok (some fields)) =
      shown fieldCount names (some record) := by
  cases names with
  | none =>
      have hdecode := Row.decode_of_meets (meets_row hfit)
      simp only [present, hdecode, Row.outcome, shown]
      by_cases hcount : record.length = fieldCount
      · simp [hcount]
      · simp [hcount]
  | some names =>
      simp only [present, shown, encode_of_fit hfit]

theorem shown_ne_malformed {found : Option Record}
    (hfit : ∀ record, found = some record →
      ∀ field ∈ record, Row.FieldFits field)
    (fieldCount : Nat) (names : Option (List Bytes)) (offset : Nat)
    (damage : Damage) :
    shown fieldCount names found ≠
      .error (.row (.malformed offset damage)) := by
  cases found with
  | none => simp [shown]
  | some record =>
      have hrecord := hfit record rfl
      cases names with
      | none =>
          simp only [shown]
          by_cases hcount : record.length = fieldCount
          · simp [hcount]
          · simp [hcount]
      | some names =>
          have hselected := Row.decodeSelected_ne_malformed (meets_row hrecord)
            names offset damage
          simp only [shown, encode_of_fit hrecord]
          cases hresult : Row.decodeSelected (Row.rowBytes record) names with
          | error e =>
              rw [hresult] at hselected
              simpa using hselected
          | ok fields => simp

/-! ## One operation on items -/

/-- An operation on the shard of some keys takes the records from one ledger to
another when it does the same to the rows of that shard. -/
theorem Serves.perform (h : store.Serves fieldCount ledgers records)
    {call : ItemCall} (hpermits : store.engine.Permits call)
    {entered : Ledger Record}
    (hkeys : ∀ key ∈ (call.enter (ledgers call.pool)).keys,
      store.routing.shardOfKey key = call.pool)
    (hrows : ∀ key, store.routing.shardOfKey key = call.pool →
      (call.enter (ledgers call.pool)).value? key =
        (entered.value? key).map Row.rowBytes)
    (hothers : ∀ key, store.routing.shardOfKey key ≠ call.pool →
      entered.value? key = records.value? key)
    (hfit : ∀ key record, entered.value? key = some record →
      ∀ field ∈ record, Row.FieldFits field) :
    ∃ ledgers',
      Serves { store with engine := store.engine.perform call } fieldCount
        ledgers' (entered.eraseAll (store.engine.dropped call)) := by
  have hdropped : ∀ key ∈ store.engine.dropped call,
      store.routing.shardOfKey key = call.pool := by
    intro key hkey
    exact hkeys key (h.keeps.mem_of_dropped hpermits hkey)
  have hsize : (store.engine.perform call).pools.size =
      store.engine.pools.size :=
    Engine.size_pools_perform store.engine call
  refine ⟨store.engine.revise call ledgers, h.keeps.perform hpermits,
    hsize.trans h.pools, h.fields, h.routing, places_revise h.sharded hkeys, ?_,
    ?_⟩
  · intro key
    rw [Ledger.value?_eraseAll]
    by_cases hshard : store.routing.shardOfKey key = call.pool
    · simp only [hshard, Engine.revise, Function.update_self,
        Ledger.value?_eraseAll]
      split
      · rfl
      · exact hrows key hshard
    · have hkept : key ∉ store.engine.dropped call := fun hmem =>
        hshard (hdropped key hmem)
      simp only [Engine.revise, Function.update_of_ne hshard, if_neg hkept,
        hothers key hshard]
      exact h.rows key
  · intro key record hvalue
    rw [Ledger.value?_eraseAll] at hvalue
    split at hvalue
    · contradiction
    · exact hfit key record hvalue

/-! ## Lookups and removals -/

def droppedByFind (store : Store) (key : Bytes) : List Bytes :=
  store.engine.dropped (.find (store.routing.shardOfKey key) key)

theorem Serves.shard_lt (h : store.Serves fieldCount ledgers records)
    (key : Bytes) :
    store.routing.shardOfKey key < store.engine.pools.size := by
  rw [h.pools]
  exact store.routing.shardOfKey_lt key

theorem findIn_snd (store : Store) (shard : Nat) (key : Bytes)
    (names : Option (List Bytes)) :
    (store.findIn shard key names).2 =
      { store with engine := store.engine.perform (.find shard key) } := by
  unfold findIn
  rcases hfind : store.engine.find shard key with ⟨found, engine⟩
  have hengine : store.engine.perform (.find shard key) = engine := by
    simp [Engine.perform, hfind]
  rw [hengine]
  rcases found with e | _ | row
  · rfl
  · rfl
  · cases hshown : present store.fieldCount row names <;> simp [hshown]

theorem findIn_fst (hkeeps : store.engine.Keeps ledgers) {shard : Nat}
    (hshard : shard < store.engine.pools.size) (key : Bytes)
    (names : Option (List Bytes)) :
    (store.findIn shard key names).1 =
      match (ledgers shard).value? key with
      | none => .ok none
      | some row =>
          match present store.fieldCount row names with
          | .error e => .error (.row e)
          | .ok fields => .ok (some fields) := by
  obtain ⟨hfind, -⟩ := hkeeps.find hshard key
  unfold findIn
  rcases hresult : store.engine.find shard key with ⟨found, engine⟩
  simp only [hresult] at hfind
  subst hfind
  cases (ledgers shard).value? key with
  | none => rfl
  | some row =>
      cases hshown : present store.fieldCount row names <;> simp [hshown]

theorem delete_eq (store : Store) (key : Bytes) {shard : Nat}
    (hshard : store.routing.shardOfKey key = shard) :
    store.delete key =
      ((store.engine.remove shard key).1.mapError .engine,
        { store with
          engine := store.engine.perform (.remove shard key) }) := by
  unfold Store.delete
  rw [hshard]
  rfl

theorem Serves.findIn (h : store.Serves fieldCount ledgers records)
    (key : Bytes) (names : Option (List Bytes)) :
    (store.findIn (store.routing.shardOfKey key) key names).1 =
        shown fieldCount names (records.value? key) ∧
      ∃ ledgers',
        (store.findIn (store.routing.shardOfKey key) key names).2.Serves
          fieldCount ledgers' (records.eraseAll (store.droppedByFind key)) := by
  have hlt := h.shard_lt key
  have hrow := h.rows key
  unfold droppedByFind
  generalize store.routing.shardOfKey key = shard at hlt hrow ⊢
  constructor
  · rw [findIn_fst h.keeps hlt, hrow, h.fields]
    cases hrecord : records.value? key with
    | none => rfl
    | some record =>
        exact present_rowBytes (h.fit key record hrecord) fieldCount names
  · rw [findIn_snd]
    have hpermits : store.engine.Permits (.find shard key) := trivial
    apply h.perform hpermits
    · exact h.sharded shard
    · intro other hother
      have hrows := h.rows other
      rw [hother] at hrows
      exact hrows
    · intro other hother
      rfl
    · exact h.fit

theorem Serves.delete (h : store.Serves fieldCount ledgers records)
    (key : Bytes) :
    (store.delete key).1 = .ok (records.value? key).isSome ∧
      ∃ ledgers',
        (store.delete key).2.Serves fieldCount ledgers'
          (records.erase key) := by
  have hlt := h.shard_lt key
  have hrow := h.rows key
  obtain ⟨shard, hshard⟩ : ∃ shard, store.routing.shardOfKey key = shard :=
    ⟨_, rfl⟩
  rw [delete_eq store key hshard]
  rw [hshard] at hlt hrow
  constructor
  · rw [h.keeps.remove hlt key, hrow, Option.isSome_map]
    rfl
  · have hpermits : store.engine.Permits (.remove shard key) := trivial
    have hdropped : store.engine.dropped (.remove shard key) = [] :=
      Engine.dropped_remove store.engine shard key
    have hnext : ∃ ledgers',
        Serves
          { store with engine := store.engine.perform (.remove shard key) }
          fieldCount ledgers'
          ((records.erase key).eraseAll
            (store.engine.dropped (.remove shard key))) := by
      apply h.perform hpermits
      · intro other hother
        exact h.sharded shard other (Ledger.mem_keys_erase.1 hother).1
      · intro other hother
        have hrows := h.rows other
        rw [hother] at hrows
        simp only [ItemCall.enter, ItemCall.pool, Ledger.value?_erase]
        split
        · rfl
        · exact hrows
      · intro other hother
        have hne : other ≠ key := fun heq => hother (heq ▸ hshard)
        rw [Ledger.value?_erase, if_neg hne]
      · intro other record hvalue
        rw [Ledger.value?_erase] at hvalue
        split at hvalue
        · contradiction
        · exact h.fit other record hvalue
    rw [hdropped, Ledger.eraseAll_nil] at hnext
    exact hnext

/-! ## Writes -/

def droppedByWrite (store : Store) (key : Bytes) (record : Record) :
    List Bytes :=
  match Row.encode record with
  | .ok row =>
      store.engine.dropped
        (.install ⟨store.routing.shardOfKey key, key, row⟩)
  | .error _ => []

theorem write_of_length {handle : WriteHandle} {row : Bytes}
    (h : handle.memory.length = row.length) :
    handle.write row = ⟨handle.pool, handle.key, row⟩ := by
  simp [WriteHandle.write, h]

def Fits (room : Nat) (key : Bytes) (record : Record) : Prop :=
  key.length ≤ Engine.maxKeySize ∧ Row.size record ≤ Engine.maxItemSize ∧
    key.length + Row.size record ≤ room

instance (room : Nat) (key : Bytes) (record : Record) :
    Decidable (Fits room key record) :=
  inferInstanceAs (Decidable (_ ∧ _ ∧ _))

/-- Why a record is not stored: one of its chunks has no length in a row, or its
shard has no room for the row. -/
def refusal? (room shard : Nat) (key : Bytes) (record : Record) :
    Option StoreError :=
  match Row.oversized? record with
  | some chunk => some (.row (.fieldTooLarge chunk.length))
  | none =>
      if Fits room key record then none
      else some (.allocationFailed shard (Row.size record))

theorem refusal?_eq_none_iff {room shard : Nat} :
    refusal? room shard key record = none ↔
      (∀ field ∈ record, Row.FieldFits field) ∧ Fits room key record := by
  rw [← Row.oversized?_eq_none_iff]
  unfold refusal?
  cases Row.oversized? record with
  | some chunk => simp
  | none => simp

section Room

variable {room : Nat × Nat}
  (hroom : store.engine.room? (store.routing.shardOfKey key) = some room)

include hroom

theorem allocate_row (record : Record) :
    store.engine.allocate (store.routing.shardOfKey key) key
        (Row.size record) =
      .ok (if Fits room.1 key record then
        some ⟨store.routing.shardOfKey key, key,
          List.replicate (Row.size record) 0⟩ else none) :=
  Engine.allocate_eq hroom key (Row.size record)

theorem write_refused {e : StoreError}
    (hrefused : refusal? room.1 (store.routing.shardOfKey key) key record =
      some e) :
    store.write key record = (.error e, store) := by
  have hallocate := allocate_row hroom record
  have hencode := Row.encode_eq record
  unfold refusal? at hrefused
  cases hchunk : Row.oversized? record with
  | some chunk =>
      simp only [hchunk] at hrefused hencode
      cases hrefused
      simp [Store.write, hencode]
  | none =>
      simp only [hchunk, Option.ite_none_left_eq_some] at hrefused hencode
      obtain ⟨hfull, hcause⟩ := hrefused
      cases hcause
      rw [if_neg hfull] at hallocate
      simp [Store.write, hencode, hallocate, Row.length_rowBytes_eq_size]

theorem write_accepted (hkeeps : store.engine.Keeps ledgers)
    (haccepted : refusal? room.1 (store.routing.shardOfKey key) key record =
      none) :
    let handle : WriteHandle :=
      ⟨store.routing.shardOfKey key, key, Row.rowBytes record⟩
    store.engine.Admits handle ∧
      store.write key record =
        (.ok (),
          { store with engine := store.engine.perform (.install handle) }) := by
  intro handle
  obtain ⟨hfields, hfits⟩ := refusal?_eq_none_iff.1 haccepted
  have hencode := Row.encode_eq_ok_iff.2 ⟨hfields, rfl⟩
  have hallocate := allocate_row hroom record
  rw [if_pos hfits, ← Row.length_rowBytes_eq_size] at hallocate
  obtain ⟨hadmits, -, -, hlength⟩ := Engine.admits_of_allocate hallocate
  have hhandle := write_of_length hlength
  rw [← Engine.admits_write, hhandle] at hadmits
  obtain ⟨hinstall, -⟩ := hkeeps.install hadmits
  refine ⟨hadmits, ?_⟩
  unfold Store.write
  simp only [hencode, hallocate, hhandle, hinstall]
  rfl

end Room

theorem write_cases (store : Store) (key : Bytes) (record : Record) :
    (∃ e, store.write key record = (.error e, store)) ∨
      ∃ row, Row.encode record = .ok row ∧
        let handle : WriteHandle := ⟨store.routing.shardOfKey key, key, row⟩
        store.engine.Admits handle ∧
          store.write key record =
            ((store.engine.install handle).1.mapError .engine,
              { store with
                engine := store.engine.perform (.install handle) }) := by
  cases hencode : Row.encode record with
  | error e => exact .inl ⟨.row e, by simp [Store.write, hencode]⟩
  | ok row =>
      obtain ⟨shard, hshard⟩ : ∃ shard, store.routing.shardOfKey key = shard :=
        ⟨_, rfl⟩
      cases hallocate : store.engine.allocate shard key row.length with
      | error e =>
          left
          exact ⟨.engine e, by simp [Store.write, hencode, hshard, hallocate]⟩
      | ok granted =>
          cases granted with
          | none =>
              left
              exact ⟨.allocationFailed shard row.length,
                by simp [Store.write, hencode, hshard, hallocate]⟩
          | some handle =>
              right
              obtain ⟨hadmits, hpool, hkey, hlength⟩ :=
                Engine.admits_of_allocate hallocate
              have hhandle : handle.write row = ⟨shard, key, row⟩ := by
                rw [write_of_length hlength, hpool, hkey]
              rw [← Engine.admits_write, hhandle] at hadmits
              rw [hshard]
              refine ⟨row, rfl, hadmits, ?_⟩
              simp [Store.write, hencode, hshard, hallocate, hhandle,
                Engine.perform]

theorem Serves.install (h : store.Serves fieldCount ledgers records)
    {row : Bytes} {shard : Nat} (hshard : store.routing.shardOfKey key = shard)
    (hadmits : store.engine.Admits ⟨shard, key, row⟩)
    (hfit : ∀ field ∈ record, Row.FieldFits field)
    (hrow : row = Row.rowBytes record) :
    ∃ ledgers',
      Serves
        { store with
          engine := store.engine.perform (.install ⟨shard, key, row⟩) }
        fieldCount ledgers'
        ((records.set key record).eraseAll
          (store.engine.dropped (.install ⟨shard, key, row⟩))) := by
  have hpermits : store.engine.Permits (.install ⟨shard, key, row⟩) := hadmits
  apply h.perform hpermits
  · intro other hother
    rcases Ledger.mem_keys_set.1 hother with rfl | hold
    · exact hshard
    · exact h.sharded shard other hold
  · intro other hother
    have hrows := h.rows other
    rw [hother] at hrows
    simp only [ItemCall.enter, ItemCall.pool, Ledger.value?_set]
    split
    · rw [hrow]
      rfl
    · exact hrows
  · intro other hother
    have hne : other ≠ key := fun heq => hother (heq ▸ hshard)
    rw [Ledger.value?_set, if_neg hne]
  · intro other stored hvalue
    rw [Ledger.value?_set] at hvalue
    split at hvalue
    · cases hvalue
      exact hfit
    · exact h.fit other stored hvalue

/-- A write that fails changes nothing; one that succeeds lists the record, and
drops other keys only. -/
theorem Serves.write (h : store.Serves fieldCount ledgers records)
    (key : Bytes) (record : Record) :
    (∃ e, store.write key record = (.error e, store)) ∨
      (store.write key record).1 = .ok () ∧
        key ∉ store.droppedByWrite key record ∧
        ∃ ledgers',
          (store.write key record).2.Serves fieldCount ledgers'
            ((records.set key record).eraseAll
              (store.droppedByWrite key record)) := by
  rcases write_cases store key record with
    hrefused | ⟨row, hencode, hadmits, hwrite⟩
  · exact .inl hrefused
  · right
    obtain ⟨hfit, hrow⟩ := Row.encode_eq_ok_iff.1 hencode
    obtain ⟨hinstall, hram⟩ := h.keeps.install hadmits
    have hdropped : store.droppedByWrite key record =
        store.engine.dropped
          (.install ⟨store.routing.shardOfKey key, key, row⟩) := by
      simp [droppedByWrite, hencode]
    rw [hwrite, hinstall, hdropped]
    refine ⟨rfl, ?_, h.install rfl hadmits hfit hrow⟩
    exact Engine.notMem_dropped (h.keeps.perform hadmits) hram

end TieredCache.Store
