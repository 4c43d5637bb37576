import OrderedIndex.Journal
import OrderedIndex.Store.Basic
import OrderedIndex.Store.Outage

namespace OrderedIndex

/-!
# Store backends

A backend creates secondary stores and passes every call on to them.  One that
can fail has planned outages and may have a capacity; a call that fails leaves
its store as it was.  Every call on a store is kept in a history, so that the life of each
store can be told from creation to close.
-/

/-- A setting that a backend was given. -/
inductive BackendSetting where
  | cacheSize (entries : Nat)
  | workingDirectory (path : String)
  deriving Repr, DecidableEq

/-- What is planned to fail. -/
structure FailurePlan where
  /-- The most values that a store takes, if there is a limit. -/
  capacity : Option Nat
  outages : Outages

/-- One call on a store, or the creation of a store. -/
structure StoreEvent where
  call : StoreCall
  store : StoreId
  deriving Repr, DecidableEq

/-- The state of a store backend. -/
structure Backend where
  /-- Short name, as notices and errors give it. -/
  name : String
  /-- Whether the sizes of its stores are exact. -/
  exact : Bool
  /-- Whether it has a cache to size and a directory to work in. -/
  tunable : Bool
  /-- What is planned to fail, if the backend can fail. -/
  failures? : Option FailurePlan
  /-- The number of the next store. -/
  nextId : StoreId
  /-- The settings given so far, the latest first. -/
  settings : List BackendSetting
  /-- The stores created and the calls made on stores, the latest first. -/
  history : List StoreEvent
  journal : Journal

/-- A computation that calls a backend. -/
abbrev StoreM := StateM Backend

namespace Backend

variable {Value : Type}

/-- A backend that keeps its stores in memory and has not described its metrics. -/
def undescribed (nextId : StoreId) (journal : Journal) : Backend where
  name := "memory"
  exact := true
  tunable := false
  failures? := none
  nextId := nextId
  settings := []
  history := []
  journal := journal

/-- The backend that keeps its stores in memory. -/
def memory (nextId : StoreId) (journal : Journal) : Backend :=
  undescribed nextId (journal.describe Metric.ofStores)

/-- The number of a memory backend's first store unless another is given. -/
def firstId : StoreId := 1

/-- A backend over the one in memory that fails as planned. -/
def faulty
    (exact : Bool)
    (capacity : Option Nat)
    (outages : Outages)
    (nextId : StoreId)
    (journal : Journal) :
    Backend :=
  { memory nextId journal with
    name := "faulty"
    exact := exact
    tunable := true
    failures? := some ⟨capacity, outages⟩ }

/-! ## Observing -/

/-- Change the journal. -/
def record (change : Journal → Journal) : StoreM Unit :=
  modify fun backend => { backend with journal := change backend.journal }

/-- Remember a call on a store. -/
def remember (call : StoreCall) (store : StoreId) : StoreM Unit :=
  modify fun backend => { backend with history := ⟨call, store⟩ :: backend.history }

/-- Let a call meet the planned outages. -/
def meet (call : StoreCall) : StoreM (Except StoreError Unit) := do
  let backend ← get
  match backend.failures? with
  | none => return .ok ()
  | some planned =>
      let (failure, outages) := planned.outages.meet call
      set { backend with failures? := some { planned with outages := outages } }
      match failure with
      | some cause => return .error cause
      | none => return .ok ()

/-! ## Planning failures -/

/-- Change what is planned to fail; a backend that cannot fail takes no plan. -/
def replan (change : FailurePlan → FailurePlan) : StoreM Unit :=
  modify fun backend => { backend with failures? := backend.failures?.map change }

/-- Plan failures of one kind of call. -/
def planOutage (call : StoreCall) (outage : Outage) : StoreM Unit :=
  replan fun planned => { planned with outages := planned.outages.plan call outage }

/-- Drop all planned failures and the capacity. -/
def clearOutages : StoreM Unit := replan fun _ => ⟨none, []⟩

/-! ## Calls on the backend -/

/-- Give the backend a setting, which it refuses if it is not tunable. -/
def configure (call : StoreCall) (setting : BackendSetting) (operation : String) :
    StoreM (Except StoreError Unit) := do
  match ← meet call with
  | .error cause => return .error cause
  | .ok () =>
      let backend ← get
      if backend.tunable then
        set { backend with settings := setting :: backend.settings }
        return .ok ()
      else
        return .error (.unsupported backend.name operation)

/-- Set the number of entries that the backend may cache. -/
def setCacheSize (entries : Nat) : StoreM (Except StoreError Unit) :=
  configure .setCacheSize (.cacheSize entries) "setting a cache size"

/-- Set the directory where the backend keeps its files. -/
def setWorkingDirectory (path : String) : StoreM (Except StoreError Unit) :=
  configure .setWorkingDirectory (.workingDirectory path) "setting a working directory"

/-- Create an empty store under the next number. -/
def create (order : Order Value) : StoreM (Except StoreError (OrderedStore Value)) := do
  match ← meet .create with
  | .error cause => return .error cause
  | .ok () =>
      let id := (← get).nextId
      modify fun backend => { backend with nextId := id + 1 }
      remember .create id
      record fun journal => (journal.count .storesCreated).note (.storeCreated id)
      return .ok (.empty id order)

/-! ## Calls on stores -/

/-- Refuse to add to a store that holds as many values as the capacity allows. -/
def checkCapacity (store : OrderedStore Value) : StoreM (Except StoreError Unit) := do
  match (← get).failures?.bind (·.capacity) with
  | some capacity =>
      match store.size with
      | .error cause => return .error cause
      | .ok size =>
          if capacity ≤ size then return .error (.invalidPath "/full") else return .ok ()
  | none => return .ok ()

/-- Add a value to a store. -/
def insert (store : OrderedStore Value) (value : Value) :
    StoreM (Except StoreError Bool × OrderedStore Value) := do
  remember .insert store.id
  match ← meet .insert with
  | .error cause => return (.error cause, store)
  | .ok () =>
      match ← checkCapacity store with
      | .error cause => return (.error cause, store)
      | .ok () =>
          match store.insert value with
          | .error cause => return (.error cause, store)
          | .ok (added, result) =>
              if added then
                record (·.count .valuesInserted)
              return (.ok added, result)

/-- Remove a value from a store. -/
def remove (store : OrderedStore Value) (value : Value) :
    StoreM (Except StoreError Bool × OrderedStore Value) := do
  remember .remove store.id
  match ← meet .remove with
  | .error cause => return (.error cause, store)
  | .ok () =>
      match store.remove value with
      | .error cause => return (.error cause, store)
      | .ok (removed, result) =>
          if removed then
            record (·.count .valuesRemoved)
          return (.ok removed, result)

/-- Make a call that reads from a store. -/
def consult {Answer : Type}
    (call : StoreCall)
    (store : OrderedStore Value)
    (answer : Except StoreError Answer) :
    StoreM (Except StoreError Answer) := do
  remember call store.id
  match ← meet call with
  | .error cause => return .error cause
  | .ok () => return answer

/-- Whether a store has a value. -/
def contains (store : OrderedStore Value) (value : Value) :
    StoreM (Except StoreError Bool) :=
  consult .contains store (store.contains value)

/-- Number of values of a store. -/
def size (store : OrderedStore Value) : StoreM (Except StoreError Nat) :=
  consult .size store store.size

/-- Open a browser in a store. -/
def browse (store : OrderedStore Value) (start : BrowseStart Value) :
    StoreM (Except StoreError (Browser Value)) :=
  consult .browse store (store.browse start)

/-- Release a store. -/
def close (store : OrderedStore Value) :
    StoreM (Except StoreError Unit × OrderedStore Value) := do
  remember .close store.id
  match ← meet .close with
  | .error cause => return (.error cause, store)
  | .ok () =>
      if !store.closed then
        record fun journal => (journal.count .storesClosed).note (.storeClosed store.id)
      return (.ok (), store.close)

/-! ## Calls on browsers -/

/-- Cross the value after a browser's gap. -/
def next (browser : Browser Value) :
    StoreM (Except StoreError (Option Value) × Browser Value) := do
  match ← meet .next with
  | .error cause => return (.error cause, browser)
  | .ok () =>
      let (value, moved) := browser.next
      return (.ok value, moved)

/-- Cross the value in front of a browser's gap. -/
def previous (browser : Browser Value) :
    StoreM (Except StoreError (Option Value) × Browser Value) := do
  match ← meet .previous with
  | .error cause => return (.error cause, browser)
  | .ok () =>
      let (value, moved) := browser.previous
      return (.ok value, moved)

end Backend

end OrderedIndex
