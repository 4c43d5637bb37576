import OrderedIndex.Error

namespace OrderedIndex

/-!
# The journal

What an operator can observe of the tables and stores: counters and histograms,
their descriptions, and a log of notices.  Nothing in the index reads the
journal, so no result depends on it.
-/

/-! ## Metrics -/

/-- The quantities that are measured. -/
inductive Metric where
  | storesCreated
  | storesClosed
  | valuesInserted
  | valuesRemoved
  | duplicatePromotions
  | duplicateDemotions
  | snapshotWrites
  | snapshotBytes
  | snapshotLoads
  deriving Repr, DecidableEq

namespace Metric

/-- The ways in which a quantity is measured. -/
inductive Instrument where
  /-- A total that only grows. -/
  | counter
  /-- A collection of single measurements. -/
  | histogram
  deriving Repr, DecidableEq

/-- The name under which a metric is published. -/
def name : Metric → String
  | .storesCreated => "store.total_stores_created"
  | .storesClosed => "store.total_stores_closed"
  | .valuesInserted => "store.total_values_inserted"
  | .valuesRemoved => "store.total_values_removed"
  | .duplicatePromotions => "index.total_duplicate_promotions"
  | .duplicateDemotions => "index.total_duplicate_demotions"
  | .snapshotWrites => "index.total_snapshot_writes"
  | .snapshotBytes => "index.snapshot_bytes"
  | .snapshotLoads => "index.total_snapshot_loads"

/-- What a metric measures, in words. -/
def description : Metric → String
  | .storesCreated => "total number of secondary stores created"
  | .storesClosed => "total number of secondary stores closed"
  | .valuesInserted => "total number of values inserted into secondary stores"
  | .valuesRemoved => "total number of values removed from secondary stores"
  | .duplicatePromotions =>
      "total number of duplicate groups moved into a secondary store"
  | .duplicateDemotions => "total number of duplicate groups moved back inline"
  | .snapshotWrites => "total number of master table snapshots written"
  | .snapshotBytes => "size of master table snapshots in bytes"
  | .snapshotLoads => "total number of master table snapshots loaded"

/-- How a metric is measured. -/
def instrument : Metric → Instrument
  | .snapshotBytes => .histogram
  | _ => .counter

/-- The metrics of the secondary stores. -/
def ofStores : List Metric :=
  [.storesCreated, .storesClosed, .valuesInserted, .valuesRemoved]

/-- The metrics of the tables. -/
def ofTables : List Metric :=
  [.duplicatePromotions, .duplicateDemotions, .snapshotWrites, .snapshotBytes,
    .snapshotLoads]

end Metric

/-! ## Notices -/

/-- How much attention a notice asks for. -/
inductive Level where
  | trace
  | debug
  | info
  | warn
  deriving Repr, DecidableEq

/-- An event that the log reports. -/
inductive Notice where
  | storeCreated (store : StoreId)
  | storeClosed (store : StoreId)
  | tableOpened (table : String) (duplicates : Bool) (backend : String)
  | tableClosed (table : String)
  /-- A group of values moved into a secondary store. -/
  | promoted (table : String) (count : Nat) (backend : String) (store : StoreId)
  /-- A group of values moved back inline. -/
  | demoted (table : String) (count : Nat) (store : StoreId)
  /-- The store of a failed promotion could not be closed. -/
  | abandonedNotClosed (table : String) (store : StoreId) (cause : StoreError)
  /-- The store of a demoted group could not be closed. -/
  | demotedNotClosed (table : String) (store : StoreId) (cause : StoreError)
  /-- A store of a table that is being closed could not be closed. -/
  | storeNotClosed (table : String) (cause : IndexError)
  | snapshotAbsent (table path : String)
  | snapshotLoaded (table : String) (entries : Nat) (sequence : UInt64)
  | snapshotWritten (table path : String) (size : Nat)
  deriving Repr, DecidableEq

namespace Notice

/-- The level of a notice. -/
def level : Notice → Level
  | .storeCreated _ | .storeClosed _ => .trace
  | .abandonedNotClosed .. | .demotedNotClosed .. | .storeNotClosed .. => .warn
  | .snapshotAbsent .. => .info
  | _ => .debug

/-- The number of a store as notices show it. -/
def storeName (store : StoreId) : String := s!"#{store.toNat}"

/-- The sentence of a notice. -/
def text : Notice → String
  | .storeCreated store => s!"created memory store {storeName store}"
  | .storeClosed store => s!"closed memory store {storeName store}"
  | .tableOpened table duplicates backend =>
      s!"opened table {table} (duplicates: {duplicates}, backend: {backend})"
  | .tableClosed table => s!"closed table {table}"
  | .promoted table count backend store =>
      s!"table {table}: moved {count} values into {backend} store {storeName store}"
  | .demoted table count store =>
      s!"table {table}: moved {count} values out of store {storeName store}"
  | .abandonedNotClosed table store cause =>
      s!"table {table}: failed to close abandoned store {storeName store}: {cause.message}"
  | .demotedNotClosed table store cause =>
      s!"table {table}: failed to close demoted store {storeName store}: {cause.message}"
  | .storeNotClosed table cause =>
      s!"table {table}: failed to close a secondary store: {cause.message}"
  | .snapshotAbsent table path =>
      s!"no snapshot for master table {table} at {path}, starting empty"
  | .snapshotLoaded table entries sequence =>
      s!"loaded master table {table} with {entries} entries, sequence {sequence.toNat}"
  | .snapshotWritten table path size =>
      s!"wrote {size} byte snapshot of master table {table} to {path}"

end Notice

/-! ## Recording -/

/-- Everything recorded so far. -/
structure Journal where
  /-- Totals of the counters that were touched. -/
  counters : List (Metric × Nat)
  /-- Measurements of the histograms that were touched, the latest first. -/
  histograms : List (Metric × List Nat)
  /-- Metrics whose descriptions were published. -/
  described : List Metric
  /-- Notices that nobody has read yet, the latest first. -/
  unread : List Notice
  deriving Repr, DecidableEq

namespace Journal

/-- The journal before anything happens. -/
def empty : Journal := ⟨[], [], [], []⟩

/-- Change the value under a metric, starting from `initial`. -/
def update {Total : Type} (initial : Total) (change : Total → Total) (metric : Metric) :
    List (Metric × Total) → List (Metric × Total)
  | [] => [(metric, change initial)]
  | (other, total) :: rest =>
      if other = metric then (other, change total) :: rest
      else (other, total) :: update initial change metric rest

/-- Add one to a counter. -/
def count (metric : Metric) (journal : Journal) : Journal :=
  { journal with counters := update 0 (· + 1) metric journal.counters }

/-- Add a measurement to a histogram. -/
def measure (metric : Metric) (amount : Nat) (journal : Journal) : Journal :=
  { journal with histograms := update [] (amount :: ·) metric journal.histograms }

/-- Publish the descriptions of metrics. -/
def describe (metrics : List Metric) (journal : Journal) : Journal :=
  let added := metrics.filter fun metric => !journal.described.contains metric
  { journal with described := journal.described ++ added }

/-- Add a notice to the log. -/
def note (notice : Notice) (journal : Journal) : Journal :=
  { journal with unread := notice :: journal.unread }

/-- The notices since the log was last read, oldest first, and a journal without them. -/
def read (journal : Journal) : List Notice × Journal :=
  (journal.unread.reverse, { journal with unread := [] })

end Journal

end OrderedIndex
