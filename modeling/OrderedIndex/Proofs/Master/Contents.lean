import OrderedIndex.Master.Basic
import OrderedIndex.Proofs.Table.Navigation
import OrderedIndex.Proofs.Tree.RoundTrip

namespace OrderedIndex

/-!
# Master tables by their contents

However a master table is opened and whatever calls are made of it, it keeps one
entry for each identifier, its properties ascend by name, and no identifier that
it stores is above its sequence.
-/

/-! ## Small sorted maps -/

namespace SortedMap

variable {Key Value : Type} {order : Order Key}

/-- The keys after an insertion are those with the new one at its place. -/
theorem keys_insert
    (key : Key)
    (value : Value)
    (map : List (Key × Value)) :
    (insert order key value map).map Prod.fst =
      Order.place (order key) key (map.map Prod.fst) := by
  induction map with
  | nil =>
      rfl
  | cons first rest inductionHypothesis =>
      rw [insert, List.map_cons, Order.place]
      cases compared : order key first.1 with
      | lt =>
          rfl
      | eq =>
          rfl
      | gt =>
          exact congrArg (first.1 :: ·) inductionHypothesis

theorem ascending_insert
    [Std.TransCmp order]
    {map : List (Key × Value)}
    (ascending : Order.Ascending order (map.map Prod.fst))
    (key : Key)
    (value : Value) :
    Order.Ascending order ((insert order key value map).map Prod.fst) := by
  rw [keys_insert]
  exact ascending.place key

theorem ascending_foldl_insert
    [Std.TransCmp order]
    {map : List (Key × Value)}
    (ascending : Order.Ascending order (map.map Prod.fst))
    (pairs : List (Key × Value)) :
    Order.Ascending order
      ((pairs.foldl (fun map pair => insert order pair.1 pair.2 map) map).map Prod.fst) := by
  induction pairs generalizing map with
  | nil =>
      exact ascending
  | cons pair rest inductionHypothesis =>
      exact inductionHypothesis (ascending_insert ascending pair.1 pair.2)

/-- Whatever pairs a map is made of, its keys ascend. -/
theorem ascending_ofList
    [Std.TransCmp order]
    (pairs : List (Key × Value)) :
    Order.Ascending order ((ofList order pairs).map Prod.fst) :=
  @ascending_foldl_insert _ _ order _ [] List.Pairwise.nil pairs

/-- A key above all others goes to the end. -/
theorem insert_above
    {key : Key}
    {map : List (Key × Value)}
    (allBelow : Order.AllBelow (order key) (map.map Prod.fst))
    (value : Value) :
    insert order key value map = map ++ [(key, value)] := by
  induction map with
  | nil =>
      rfl
  | cons first rest inductionHypothesis =>
      obtain ⟨compared, restBelow⟩ := List.forall_mem_cons.mp allBelow
      rw [insert, compared]
      exact congrArg (first :: ·) (inductionHypothesis restBelow)

/-- Pairs above those of a map go behind them in their order. -/
theorem foldl_insert_of_ascending
    [Std.TransCmp order]
    {map pairs : List (Key × Value)}
    (ascending : Order.Ascending order ((map ++ pairs).map Prod.fst)) :
    pairs.foldl (fun map pair => insert order pair.1 pair.2 map) map = map ++ pairs := by
  induction pairs generalizing map with
  | nil =>
      exact (List.append_nil map).symm
  | cons pair rest inductionHypothesis =>
      have allBelow : Order.AllBelow (order pair.1) (map.map Prod.fst) := by
        rw [List.map_append] at ascending
        intro key member
        have before := (List.pairwise_append.mp ascending).2.2 key member pair.1 (by simp)
        exact Std.OrientedCmp.gt_of_lt before
      have regrouped : map ++ pair :: rest = (map ++ [pair]) ++ rest := by
        simp
      rw [regrouped] at ascending ⊢
      rw [List.foldl_cons, insert_above allBelow]
      exact inductionHypothesis ascending

/-- A list that is a map already is its own map. -/
theorem ofList_of_ascending
    [Std.TransCmp order]
    {pairs : List (Key × Value)}
    (ascending : Order.Ascending order (pairs.map Prod.fst)) :
    ofList order pairs = pairs :=
  @foldl_insert_of_ascending _ _ order _ [] pairs ascending

/-- After an insertion the inserted value is found under the keys that are equal to its own. -/
theorem get?_insert
    [Std.TransCmp order]
    (key sought : Key)
    (value : Value)
    (map : List (Key × Value)) :
    get? order sought (insert order key value map) =
      if order sought key = .eq then some value else get? order sought map := by
  induction map with
  | nil =>
      by_cases same : order sought key = .eq <;> simp [insert, get?, same]
  | cons first rest inductionHypothesis =>
      rw [insert]
      cases compared : order key first.1 with
      | lt =>
          by_cases same : order sought key = .eq <;> simp [get?, same]
      | eq =>
          have alike : order sought first.1 = order sought key :=
            (Std.TransCmp.congr_right compared).symm
          by_cases same : order sought key = .eq <;> simp [get?, same, alike]
      | gt =>
          dsimp only [get?] at inductionHypothesis ⊢
          by_cases isFirst : order sought first.1 = .eq
          · have apart : order sought key ≠ .eq := by
              intro same
              rw [Std.TransCmp.congr_left same, compared] at isFirst
              contradiction
            simp [isFirst, apart]
          · rw [List.find?_cons_of_neg (by simpa using isFirst),
              List.find?_cons_of_neg (by simpa using isFirst)]
            exact inductionHypothesis

/-- What is inserted last is found first, and what a map had before is found after it. -/
theorem get?_foldl_insert
    [Std.TransCmp order]
    (sought : Key)
    (pairs map : List (Key × Value)) :
    get? order sought (pairs.foldl (fun map pair => insert order pair.1 pair.2 map) map) =
      (get? order sought pairs.reverse).or (get? order sought map) := by
  induction pairs generalizing map with
  | nil =>
      rfl
  | cons pair rest inductionHypothesis =>
      rw [List.foldl_cons, inductionHypothesis, get?_insert, List.reverse_cons]
      unfold get?
      rw [List.find?_append]
      by_cases same : order sought pair.1 = .eq <;> cases rest.reverse.find? _ <;> simp [same]

/-- The value under a key is that of the last pair with an equal key. -/
theorem get?_ofList
    [Std.TransCmp order]
    (sought : Key)
    (pairs : List (Key × Value)) :
    get? order sought (ofList order pairs) = get? order sought pairs.reverse :=
  (get?_foldl_insert sought pairs []).trans Option.or_none

end SortedMap

/-! ## Tables without duplicates -/

namespace TableSpec

variable {Key Value : Type} {spec : TableSpec Key Value} {map : Multimap Key Value}

/-- After adding a tuple, a key is the added one or was there before. -/
theorem mem_put
    {key : Key}
    {value : Value}
    {pair : Key × List Value}
    (member : pair ∈ (spec.put map key value).2) :
    pair.1 = key ∨ ∃ old ∈ map, pair.1 = old.1 := by
  have written {values : List Value} (member : pair ∈ spec.write map key values) :
      ∃ old ∈ map, pair.1 = old.1 := by
    rcases Order.mem_adjust member with ⟨old, oldMember, rfl⟩ | stays
    · exact ⟨old, oldMember, rfl⟩
    · exact ⟨pair, stays, rfl⟩
  unfold put at member
  split at member
  · rcases Order.mem_place member with rfl | stays
    · exact Or.inl rfl
    · exact Or.inr ⟨pair, stays, rfl⟩
  · split at member
    · exact Or.inr (written member)
    · exact Or.inr (written member)

/-- Every tuple has a key of the map. -/
theorem mem_of_mem_tuples
    {tuple : Key × Value}
    (member : tuple ∈ tuples map) :
    ∃ pair ∈ map, pair.1 = tuple.1 := by
  obtain ⟨pair, pairMember, inGroup⟩ := List.mem_flatMap.mp member
  obtain ⟨value, _, rfl⟩ := List.mem_map.mp inGroup
  exact ⟨pair, pairMember, rfl⟩

end TableSpec

namespace Table

variable {Key Value : Type} {table : Table Key Value} {order? : Option (Order Value)}

theorem entries_of_kind (kind_eq : table.spec.kind = .unique order?) :
    ∃ tree, table.entries = .unique tree := by
  cases entries : table.entries with
  | unique tree =>
      exact ⟨tree, rfl⟩
  | duplicates tree policy =>
      rw [spec, entries] at kind_eq
      contradiction

/-- A change of a table without duplicates makes no call, and is the change of its map. -/
theorem Sound.apply_unique
    (sound : table.Sound)
    (kind_eq : table.spec.kind = .unique order?)
    (change : TableChange Key Value) :
    ∃ answer changed,
      change.apply table = pure (answer, changed) ∧
        table.Became (change.applyToMap table.spec table.groups) (answer, changed) := by
  obtain ⟨tree, entries⟩ := entries_of_kind kind_eq
  have silent : ∃ answer changed, change.apply table = pure (answer, changed) := by
    cases change with
    | put key value =>
        rw [TableChange.apply, put, entries]
        dsimp only
        split
        · exact ⟨_, _, rfl⟩
        · exact ⟨_, _, rfl⟩
    | remove key =>
        rw [TableChange.apply, remove, entries]
        exact ⟨_, _, rfl⟩
    | removeValue key value =>
        rw [TableChange.apply, removeValue, entries]
        dsimp only
        split
        · exact ⟨_, _, rfl⟩
        · split
          · exact ⟨_, _, rfl⟩
          · exact ⟨_, _, rfl⟩
  obtain ⟨answer, changed, apply_eq⟩ := silent
  have became := (change.ensures_apply sound (.memory 1 .empty) (Or.inl rfl)).1
  rw [apply_eq] at became
  exact ⟨answer, changed, apply_eq, became⟩

end Table

/-! ## Sound master tables -/

instance : Std.TransCmp (Order.natural : Order UInt64) :=
  inferInstanceAs (Std.TransCmp (compare : UInt64 → UInt64 → Ordering))

/-- The greater of two identifiers is the greater of two numbers. -/
theorem toNat_max (first second : UInt64) :
    (max first second).toNat = max first.toNat second.toNat := by
  have choose : max first second = if first ≤ second then second else first := rfl
  rw [choose]
  split
  next below =>
    exact (Nat.max_eq_right (UInt64.le_iff_toNat_le.mp below)).symm
  next above =>
    have below : second.toNat ≤ first.toNat :=
      Nat.le_of_not_le (mt UInt64.le_iff_toNat_le.mpr above)
    exact (Nat.max_eq_left below).symm

theorem max_eq_of_le
    {first second : UInt64}
    (below : second ≤ first) :
    max first second = first := by
  rw [← UInt64.toNat_inj, toNat_max]
  exact Nat.max_eq_left (UInt64.le_iff_toNat_le.mp below)

theorem le_max_of_le_left
    {id first : UInt64}
    (below : id ≤ first)
    (second : UInt64) :
    id ≤ max first second := by
  rw [UInt64.le_iff_toNat_le] at below ⊢
  rw [toNat_max]
  exact Nat.le_trans below (Nat.le_max_left _ _)

theorem le_max_of_le_right
    {id second : UInt64}
    (first : UInt64)
    (below : id ≤ second) :
    id ≤ max first second := by
  rw [UInt64.le_iff_toNat_le] at below ⊢
  rw [toNat_max]
  exact Nat.le_trans below (Nat.le_max_right _ _)

namespace MasterTable

instance : Std.TransCmp nameOrder :=
  inferInstanceAs (Std.TransCmp (compare : String → String → Ordering))

variable
  {Value : Type}
  {config : MasterTableConfig}
  {codec : Codec Value}
  {master : MasterTable Value}

/-- A master table of a configuration whose parts agree. -/
structure Sound
    (config : MasterTableConfig)
    (codec : Codec Value)
    (master : MasterTable Value) :
    Prop where
  table : master.table.Sound
  spec_eq : master.table.spec = ⟨config.name, .natural, .unique none⟩
  path?_eq : master.path? = config.path?
  format_eq : master.format = entryFormat codec
  ascending : Order.Ascending nameOrder (master.properties.map Prod.fst)
  stored_le : ∀ pair ∈ master.table.groups, pair.1 ≤ master.sequence

namespace Sound

theorem kind_eq (sound : Sound config codec master) :
    master.table.spec.kind = .unique none := by
  rw [sound.spec_eq]

theorem name_eq (sound : Sound config codec master) : master.table.name = config.name :=
  congrArg TableSpec.name sound.spec_eq

/-- No stored identifier is above the sequence. -/
theorem le_sequence
    (sound : Sound config codec master)
    {entry : UInt64 × Value}
    (member : entry ∈ master.table.toList) :
    entry.1 ≤ master.sequence := by
  rw [Table.toList_eq_tuples] at member
  obtain ⟨pair, pairMember, same⟩ := TableSpec.mem_of_mem_tuples member
  rw [← same]
  exact sound.stored_le pair pairMember

/-- The tree of entries. -/
theorem tree (sound : Sound config codec master) :
    ∃ tree,
      master.table.entries = .unique tree ∧
        tree.order = .natural ∧ tree.Sound ∧ master.table.toList = tree.toList := by
  obtain ⟨tree, entries⟩ := Table.entries_of_kind sound.kind_eq
  have contents := sound.table.contents
  rw [entries] at contents
  have keyOrder_eq : master.table.keyOrder = .natural :=
    congrArg TableSpec.keys sound.spec_eq
  refine ⟨tree, entries, contents.1.trans keyOrder_eq, contents.2, ?_⟩
  rw [Table.toList, entries]

end Sound

/-! ## Opening -/

instance (codec : Codec Value) : Std.TransCmp (entryFormat codec).order :=
  inferInstanceAs (Std.TransCmp (Order.natural : Order UInt64))

/-- Whatever tree of entries is decoded is sound. -/
theorem sound_of_decode
    {bytes : Bytes}
    {tree : OrderedTree UInt64 Value}
    (decoded : (entryFormat codec).decode bytes = .ok tree) :
    tree.order = .natural ∧ tree.Sound := by
  obtain ⟨order_eq, nodes, represents⟩ := TreeFormat.decode_represents decoded
  have lawful : Std.TransCmp tree.order := order_eq ▸ inferInstance
  exact ⟨order_eq, lawful, nodes, represents⟩

/-- The greatest identifier of a tree is that of its last pair. -/
theorem highestId_eq
    {tree : OrderedTree UInt64 Value}
    (sound : tree.Sound) :
    highestId tree = (tree.toList.getLast?.map Prod.fst).getD 0 := by
  obtain ⟨nodes, represents⟩ := sound.represents
  have last_eq : (tree.last.bind tree.key?) = tree.toList.getLast?.map Prod.fst := by
    rw [← represents.lastPair_eq, Option.map_bind]
    refine congrArg _ (funext fun id => ?_)
    rw [Function.comp, OrderedTree.pair?, Option.map_map]
    rfl
  rw [highestId, last_eq]

/-- No identifier of a tree is above the greatest. -/
theorem le_highestId
    {tree : OrderedTree UInt64 Value}
    (sound : tree.Sound)
    (order_eq : tree.order = .natural)
    {entry : UInt64 × Value}
    (member : entry ∈ tree.toList) :
    entry.1 ≤ highestId tree := by
  have ascending := sound.ascending
  rw [OrderedTree.keys_eq_toList, order_eq] at ascending
  rw [highestId_eq sound]
  rcases List.eq_nil_or_concat tree.toList with empty | ⟨below, last, pairs⟩
  · rw [empty] at member
    contradiction
  · rw [pairs] at member ascending ⊢
    rw [List.concat_eq_append, List.map_append] at ascending
    rw [List.concat_eq_append] at member ⊢
    rw [List.getLast?_append_cons]
    rcases List.mem_append.mp member with inBelow | isLast
    · have before :=
        (List.pairwise_append.mp ascending).2.2 entry.1 (List.mem_map_of_mem inBelow) last.1
          (by simp)
      exact UInt64.le_of_lt (Std.compare_eq_lt.mp before)
    · rw [List.mem_singleton.mp isLast]
      exact UInt64.le_refl _

/-- What is above all identifiers of a tree is above the greatest. -/
theorem highestId_le
    {tree : OrderedTree UInt64 Value}
    (sound : tree.Sound)
    {bound : UInt64}
    (covers : ∀ entry ∈ tree.toList, entry.1 ≤ bound) :
    highestId tree ≤ bound := by
  rw [highestId_eq sound]
  cases last : tree.toList.getLast? with
  | none =>
      exact UInt64.zero_le
  | some entry =>
      exact covers entry (List.mem_of_getLast? last)

/-- A snapshot file is read part by part. -/
theorem readSnapshot_eq_ok_iff
    {format : TreeFormat UInt64 Value}
    {bytes : Bytes}
    {contents : Contents Value} :
    readSnapshot format bytes = .ok contents ↔
      ∃ snapshot properties tree,
        Snapshot.decode bytes = .ok snapshot ∧
          snapshot.properties.mapM StoredProperty.decode = .ok properties ∧
            format.decode snapshot.entries = .ok tree ∧
              ⟨max snapshot.sequence (highestId tree), SortedMap.ofList nameOrder properties,
                  tree⟩ =
                contents := by
  simp only [readSnapshot, bind_eq_ok_iff]
  constructor
  · rintro ⟨snapshot, decoded, properties, named, tree, grown, returned⟩
    exact ⟨snapshot, properties, tree, decoded, named, grown, Except.ok.inj returned⟩
  · rintro ⟨snapshot, properties, tree, decoded, named, grown, rfl⟩
    exact ⟨snapshot, decoded, properties, named, tree, grown, rfl⟩

/-- The table of a configuration that is empty. -/
def blank (config : MasterTableConfig) (codec : Codec Value) : MasterTable Value where
  table :=
    ⟨config.name, .natural, none, .unique (.empty .natural), 0,
      TableConfig.defaultDuplicateLimit⟩
  sequence := 0
  properties := []
  path? := config.path?
  format := entryFormat codec

/-- The table of a configuration with the contents of a snapshot file. -/
def filled (config : MasterTableConfig) (codec : Codec Value) (contents : Contents Value) :
    MasterTable Value :=
  { blank config codec with
    table := (blank config codec).table.withEntries (.unique contents.tree) contents.tree.size
    sequence := contents.sequence
    properties := contents.properties }

/-- What opening a configuration comes to, by what can be read of its snapshot file. -/
def opened (config : MasterTableConfig) (codec : Codec Value) :
    Except IoKind Bytes → Except IndexError (MasterTable Value)
  | .ok bytes =>
      match readSnapshot (entryFormat codec) bytes with
      | .ok contents => .ok (filled config codec contents)
      | .error cause => .error (.decode cause)
  | .error .notFound => .ok (blank config codec)
  | .error kind => .error (.io kind)

/-- Filling an empty table fails only over bytes that are no snapshot. -/
theorem load_blank
    (config : MasterTableConfig)
    (codec : Codec Value)
    (bytes : Bytes)
    (host : Host) :
    ((blank config codec).load bytes host).1 = opened config codec (.ok bytes) := by
  have format_eq : (blank config codec).format = entryFormat codec := rfl
  rw [load, opened, format_eq]
  cases readSnapshot (entryFormat codec) bytes with
  | error cause =>
      rfl
  | ok contents =>
      rfl

/-- Opening a configuration with a path is reading its file, over a host with the same files. -/
theorem ofConfig_started
    (name path : String)
    (codec : Codec Value)
    (host : Host) :
    ∃ ready : Host,
      ofConfig ⟨name, some path⟩ codec host =
          (match host.files.read path with
            | .ok bytes => (blank ⟨name, some path⟩ codec).load bytes
            | .error .notFound => do
                Host.record (·.note (.snapshotAbsent name path))
                return .ok (blank ⟨name, some path⟩ codec)
            | .error kind => return .error (.io kind) : HostM _) ready ∧
        ready.files = host.files :=
  -- A table without settings of its own opens, and that leaves the files alone.
  ⟨_, rfl, rfl⟩

/-- Opening a configuration fails only over its snapshot file. -/
theorem ofConfig_eq
    (config : MasterTableConfig)
    (codec : Codec Value)
    (host : Host) :
    (ofConfig config codec host).1 =
      match config.path? with
      | some path => opened config codec (host.files.read path)
      | none => .ok (blank config codec) := by
  obtain ⟨name, path?⟩ := config
  cases path? with
  | none =>
      rfl
  | some path =>
      obtain ⟨ready, started, -⟩ := ofConfig_started name path codec host
      rw [started]
      change _ = opened ⟨name, some path⟩ codec (host.files.read path)
      cases host.files.read path with
      | ok bytes =>
          exact load_blank _ codec bytes ready
      | error kind =>
          cases kind <;> rfl

theorem sound_blank (config : MasterTableConfig) (codec : Codec Value) :
    Sound config codec (blank config codec) where
  table := by
    refine ⟨?_, ⟨rfl, OrderedTree.sound_empty .natural⟩, rfl⟩
    intro order isOrder
    contradiction
  spec_eq := rfl
  path?_eq := rfl
  format_eq := rfl
  ascending := List.Pairwise.nil
  stored_le pair member := by
    contradiction

/-- What is read of a snapshot file is a sound tree and a map, and the sequence covers the tree. -/
theorem sound_filled
    (config : MasterTableConfig)
    {bytes : Bytes}
    {contents : Contents Value}
    (read : readSnapshot (entryFormat codec) bytes = .ok contents) :
    Sound config codec (filled config codec contents) := by
  obtain ⟨snapshot, properties, tree, _, _, decoded, rfl⟩ := readSnapshot_eq_ok_iff.mp read
  obtain ⟨order_eq, treeSound⟩ := sound_of_decode decoded
  have loaded :
      (blank config codec).table.loadUnique tree =
        .ok ((blank config codec).table.withEntries (.unique tree) tree.size) :=
    rfl
  exact {
    table := (sound_blank config codec).table.loadUnique treeSound order_eq loaded
    spec_eq := rfl
    path?_eq := rfl
    format_eq := rfl
    ascending := SortedMap.ascending_ofList properties
    stored_le := by
      intro pair member
      obtain ⟨entry, entryMember, rfl⟩ := List.mem_map.mp member
      exact le_max_of_le_right _ (le_highestId treeSound order_eq entryMember) }

/-- Whatever opens is sound. -/
theorem sound_of_ofConfig
    {host : Host}
    (opens : (ofConfig config codec host).1 = .ok master) :
    Sound config codec master := by
  rw [ofConfig_eq] at opens
  split at opens
  next path _ =>
    unfold opened at opens
    split at opens
    next bytes _ =>
      split at opens
      next contents read =>
        cases opens
        exact sound_filled config read
      next =>
        contradiction
    next =>
      cases opens
      exact sound_blank config codec
    next =>
      contradiction
  next =>
    cases opens
    exact sound_blank config codec

end MasterTable

end OrderedIndex
