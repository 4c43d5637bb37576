import OrderedIndex.Proofs.Computation
import OrderedIndex.Proofs.Table.Contents

namespace OrderedIndex

/-!
# Opening tables

Whatever table is opened is sound and empty, and with sensible settings over a
backend that does not fail, a table does open.
-/

variable {Key Value : Type}

/-- How a table with the given settings tells values apart. -/
def TableKind.ofSettings (duplicates : Bool) : Option (Order Value) → TableKind Value
  | some order => if duplicates then .duplicates order else .unique (some order)
  | none => .unique none

theorem TableKind.order?_ofSettings
    (duplicates : Bool)
    (valueOrder? : Option (Order Value)) :
    (ofSettings duplicates valueOrder?).order? = valueOrder? := by
  cases valueOrder? with
  | none =>
      rfl
  | some order =>
      cases duplicates <;> rfl

/-- What a table with the given settings is meant to be. -/
def TableSpec.ofSettings
    (config : TableConfig)
    (keyOrder : Order Key)
    (valueOrder? : Option (Order Value)) :
    TableSpec Key Value :=
  ⟨config.name, keyOrder, .ofSettings config.duplicates valueOrder?⟩

namespace Table

section New

variable
  {config : TableConfig}
  {keyOrder : Order Key}
  {valueOrder? : Option (Order Value)}

/-- The contents of a new table are empty and of the kind that is asked for. -/
theorem initialEntries_sound
    [Std.TransCmp keyOrder]
    {entries : Entries Key Value}
    (initial : initialEntries config keyOrder valueOrder? = .ok entries) :
    entries.Sound keyOrder valueOrder? ∧
      entries.kind valueOrder? = .ofSettings config.duplicates valueOrder? ∧
        entries.groups = [] := by
  unfold initialEntries at initial
  cases duplicates : config.duplicates with
  | true =>
      rw [duplicates, if_pos rfl] at initial
      cases valueOrder? with
      | none =>
          contradiction
      | some order =>
          cases initial
          refine ⟨⟨rfl, OrderedTree.sound_empty keyOrder, rfl, ?_⟩, rfl, rfl⟩
          intro pair member
          contradiction
  | false =>
      rw [duplicates, if_neg Bool.false_ne_true] at initial
      cases initial
      refine ⟨⟨rfl, OrderedTree.sound_empty keyOrder⟩, ?_, rfl⟩
      cases valueOrder? <;> rfl

theorem initialEntries_eq_ok
    (distinguishes : config.duplicates = true → valueOrder?.isSome) :
    ∃ entries : Entries Key Value,
      initialEntries config keyOrder valueOrder? = .ok entries := by
  unfold initialEntries
  cases duplicates : config.duplicates with
  | true =>
      obtain ⟨order, rfl⟩ := Option.isSome_iff_exists.mp (distinguishes duplicates)
      exact ⟨_, rfl⟩
  | false =>
      exact ⟨_, rfl⟩

/-- Whatever table is opened, it is empty and has the contents of a new one. -/
theorem new_eq_ok
    {backend : Backend}
    {table : Table Key Value}
    (opened : (new config keyOrder valueOrder? backend).1 = .ok table) :
    ∃ entries,
      initialEntries config keyOrder valueOrder? = .ok entries ∧
        table =
          ⟨config.name, keyOrder, valueOrder?, entries, 0, config.duplicateLimit⟩ := by
  rw [new, bind_apply] at opened
  split at opened
  next =>
    contradiction
  next =>
    rw [bind_apply] at opened
    generalize configureBackend config _ = configured at opened
    obtain ⟨cause | ⟨⟩, ready⟩ := configured
    · contradiction
    · cases initial : initialEntries config keyOrder valueOrder? with
      | error cause =>
          rw [initial] at opened
          contradiction
      | ok entries =>
          rw [initial] at opened
          exact ⟨entries, rfl, (Except.ok.inj opened).symm⟩

/-- No table is opened that could keep no value inline. -/
theorem duplicateLimit_ne_zero
    {backend : Backend}
    {table : Table Key Value}
    (opened : (new config keyOrder valueOrder? backend).1 = .ok table) :
    config.duplicateLimit ≠ 0 := by
  intro isZero
  rw [new, bind_apply, if_pos isZero] at opened
  contradiction

/-- A new table is sound and empty. -/
theorem new_sound
    [Std.TransCmp keyOrder]
    (lawfulValues : ∀ order ∈ valueOrder?, Std.TransCmp order)
    {backend : Backend}
    {table : Table Key Value}
    (opened : (new config keyOrder valueOrder? backend).1 = .ok table) :
    table.Sound ∧ table.spec = .ofSettings config keyOrder valueOrder? ∧ table.groups = [] := by
  obtain ⟨entries, initial, rfl⟩ := new_eq_ok opened
  obtain ⟨entriesSound, kind_eq, empty⟩ := initialEntries_sound initial
  refine ⟨⟨?_, entriesSound, ?_⟩, ?_, empty⟩
  · intro order isOrder
    have kindOrder : (entries.kind valueOrder?).order? = some order := isOrder
    rw [kind_eq, TableKind.order?_ofSettings] at kindOrder
    exact lawfulValues order kindOrder
  · rw [groups, empty]
    rfl
  · rw [spec, kind_eq]
    rfl

end New

end Table

/-- A configuration without settings for the backend suits every backend. -/
theorem Backend.Reliable.configureBackend_eq
    {backend : Backend}
    {config : TableConfig}
    (reliable : backend.Reliable)
    (suits :
      config.cacheSize? = none ∧ config.workingDirectory? = none ∨ backend.tunable = true) :
    ∃ settings,
      Table.configureBackend config backend =
        (.ok (), { backend with settings := settings }) := by
  -- Whatever was set before, the working directory is taken as well.
  have directed (settings : List BackendSetting) :
      ∃ others,
        config.workingDirectory?.elim (pure (.ok ())) setWorkingDirectory
            { backend with settings := settings } =
          (.ok (), { backend with settings := others }) := by
    cases directory : config.workingDirectory? with
    | none =>
        exact ⟨settings, rfl⟩
    | some path =>
        have tunable : backend.tunable = true := by
          simpa [directory] using suits
        have stillReliable : Reliable { backend with settings := settings } := reliable
        exact ⟨_, stillReliable.configure_eq tunable _ _ _⟩
  unfold Table.configureBackend
  cases cacheSize : config.cacheSize? with
  | none =>
      obtain ⟨others, directed⟩ := directed backend.settings
      refine ⟨others, Eq.trans ?_ directed⟩
      cases config.workingDirectory? <;> rfl
  | some entries =>
      have tunable : backend.tunable = true := by
        simpa [cacheSize] using suits
      have sized := reliable.configure_eq tunable .setCacheSize (.cacheSize entries)
        "setting a cache size"
      obtain ⟨others, directed⟩ := directed (.cacheSize entries :: backend.settings)
      refine ⟨others, Eq.trans ?_ directed⟩
      dsimp only
      rw [bind_apply, setCacheSize, sized]
      cases config.workingDirectory? <;> rfl

/-- The settings and the backend with which a table opens. -/
structure TableConfig.Opens
    (config : TableConfig)
    (valueOrder? : Option (Order Value))
    (backend : Backend) :
    Prop where
  limited : 1 ≤ config.duplicateLimit
  distinguishes : config.duplicates = true → valueOrder?.isSome
  reliable : backend.Reliable
  /-- Only a backend that is tunable takes settings. -/
  suits : config.cacheSize? = none ∧ config.workingDirectory? = none ∨ backend.tunable = true

theorem TableConfig.Opens.new_eq
    {config : TableConfig}
    {valueOrder? : Option (Order Value)}
    {backend : Backend}
    (opens : config.Opens valueOrder? backend)
    (keyOrder : Order Key) :
    ∃ (table : Table Key Value) (started : Backend),
      Table.new config keyOrder valueOrder? backend = (.ok table, started) ∧
        started.Reliable := by
  have positive : config.duplicateLimit ≠ 0 := Nat.ne_of_gt opens.limited
  have described : (Backend.record (·.describe Metric.ofTables) backend).2.Reliable :=
    opens.reliable
  obtain ⟨settings, configured⟩ := described.configureBackend_eq opens.suits
  obtain ⟨entries, initial⟩ := Table.initialEntries_eq_ok opens.distinguishes
  rw [Table.new, bind_apply, if_neg positive, bind_apply, configured]
  dsimp only
  rw [initial]
  exact ⟨_, _, rfl, opens.reliable⟩

end OrderedIndex
