import OrderedIndex.Codec

namespace OrderedIndex

/-!
# Table configurations

Every field but the name has a default, so that a configuration file lists only
what differs.
-/

/-- The settings of one index table. -/
structure TableConfig where
  /-- Name of the table, usually the attribute that it indexes. -/
  name : String
  /-- Whether a key may have more than one value. -/
  duplicates : Bool
  /-- The most values that a key keeps inline. -/
  duplicateLimit : Nat
  /-- The number of entries that the secondary store backend may cache. -/
  cacheSize? : Option Nat
  /-- The directory where the secondary store backend keeps its files. -/
  workingDirectory? : Option String
  deriving Repr, DecidableEq

namespace TableConfig

/-- The duplicate limit of a table that sets none. -/
def defaultDuplicateLimit : Nat := 512

/-- The settings of a table that names only itself. -/
def ofName (name : String) (duplicates : Bool) : TableConfig where
  name := name
  duplicates := duplicates
  duplicateLimit := defaultDuplicateLimit
  cacheSize? := none
  workingDirectory? := none

/-- The same settings with another duplicate limit. -/
def withDuplicateLimit (config : TableConfig) (limit : Nat) : TableConfig :=
  { config with duplicateLimit := limit }

/-- The size below which the values of a key move back inline. -/
def demotionLimit (config : TableConfig) : Nat := config.duplicateLimit / 2

instance : Json.Form TableConfig where
  write config := do
    return Json.writeRecord
      [("name", ← Json.Form.write config.name),
        ("duplicates", ← Json.Form.write config.duplicates),
        ("duplicate_limit", toString config.duplicateLimit),
        ("cache_size", (config.cacheSize?.map toString).getD "null"),
        ("working_directory", ← Json.Form.write config.workingDirectory?)]
  read? form := do
    let fields ← Json.readRecord?
      ["name", "duplicates", "duplicate_limit", "cache_size", "working_directory"] form
    match fields with
    | [some name, duplicates, limit, cacheSize, directory] =>
        return {
          name := ← Json.Form.read? name
          duplicates := ← (duplicates.map Json.Form.read?).getD (some false)
          duplicateLimit :=
            ← (limit.map (Json.readBelow? UInt64.size)).getD (some defaultDuplicateLimit)
          cacheSize? := ← (cacheSize.map readCacheSize?).getD (some none)
          workingDirectory? := ← (directory.map Json.Form.read?).getD (some none) }
    | _ => none
where
  /-- A count or nothing. -/
  readCacheSize? : Json.Value → Option (Option Nat)
    | .null => some none
    | value => (Json.readBelow? UInt64.size value).map some

end TableConfig

/-- The settings of a master table. -/
structure MasterTableConfig where
  /-- Name of the table. -/
  name : String
  /-- The snapshot file; a table without one lives in memory only. -/
  path? : Option String
  deriving Repr, DecidableEq

namespace MasterTableConfig

/-- The settings of a master table that lives in memory only. -/
def ofName (name : String) : MasterTableConfig := ⟨name, none⟩

/-- The same settings with a snapshot file. -/
def withPath (config : MasterTableConfig) (path : String) : MasterTableConfig :=
  { config with path? := some path }

instance : Json.Form MasterTableConfig where
  write config := do
    return Json.writeRecord
      [("name", ← Json.Form.write config.name), ("path", ← Json.Form.write config.path?)]
  read? form := do
    match ← Json.readRecord? ["name", "path"] form with
    | [some name, path] =>
        return ⟨← Json.Form.read? name, ← (path.map Json.Form.read?).getD (some none)⟩
    | _ => none

end MasterTableConfig

end OrderedIndex
