import OrderedIndex.Proofs.Tree.Lifetime
import OrderedIndex.Proofs.Tree.Walk

namespace OrderedIndex.OrderedTree

/-!
# Stable handles

A handle keeps its key and its value until its own node is removed, whatever
happens to the other nodes and to the shape above them.  The slots that the walk
does not reach are the free ones, so none is lost: the arena has as many slots
as the tree ever had keys at once.
-/

open TreeNode

variable
  {Key Value : Type}
  {tree result : OrderedTree Key Value}
  {nodes others : List (TreeNode Key Value)}

/-- The same key and value are behind a handle in two trees, or nothing in both. -/
def SameBehind (tree result : OrderedTree Key Value) (id : NodeId) : Prop :=
  result.keyAt id = tree.keyAt id ∧ result.valueAt id = tree.valueAt id

/-! ## What is behind a handle -/

namespace Formed

theorem keyAt_eq
    (formed : tree.Formed nodes)
    {node : TreeNode Key Value}
    (member : node ∈ nodes) :
    tree.keyAt node.id = .ok node.key := by
  obtain ⟨before, after, found⟩ := formed.linked.entry_of_mem member
  simp [keyAt, entryAt, found, Except.map]

theorem valueAt_eq
    (formed : tree.Formed nodes)
    {node : TreeNode Key Value}
    (member : node ∈ nodes) :
    tree.valueAt node.id = .ok node.value := by
  obtain ⟨before, after, found⟩ := formed.linked.entry_of_mem member
  simp [valueAt, entryAt, found, Except.map]

/-- Nothing is behind a handle that is no node's. -/
theorem stale
    (formed : tree.Formed nodes)
    {id : NodeId}
    (stranger : id ∉ nodes.map TreeNode.id) :
    tree.keyAt id = .error ⟨id⟩ ∧ tree.valueAt id = .error ⟨id⟩ := by
  simp [keyAt, valueAt, entryAt, formed.vacant id stranger, Except.map]

/-- Trees with the same nodes behind a handle have the same key and value there. -/
theorem sameBehind
    (formed : tree.Formed nodes)
    (resultFormed : result.Formed others)
    {id : NodeId}
    (same : ∀ node : TreeNode Key Value, node.id = id → (node ∈ others ↔ node ∈ nodes)) :
    SameBehind tree result id := by
  by_cases isNode : id ∈ nodes.map TreeNode.id
  · obtain ⟨node, member, rfl⟩ := List.mem_map.mp isNode
    have isOther : node ∈ others := (same node rfl).mpr member
    exact ⟨(resultFormed.keyAt_eq isOther).trans (formed.keyAt_eq member).symm,
      (resultFormed.valueAt_eq isOther).trans (formed.valueAt_eq member).symm⟩
  · have isStranger : id ∉ others.map TreeNode.id := by
      intro isOther
      obtain ⟨node, member, rfl⟩ := List.mem_map.mp isOther
      exact isNode (List.mem_map_of_mem ((same node rfl).mp member))
    obtain ⟨keyStale, valueStale⟩ := formed.stale isNode
    obtain ⟨resultKeyStale, resultValueStale⟩ := resultFormed.stale isStranger
    exact ⟨resultKeyStale.trans keyStale.symm, resultValueStale.trans valueStale.symm⟩

end Formed

/-- Another node in the middle of a list makes no difference to who else is in it. -/
theorem mem_middle_iff
    {below above : List (TreeNode Key Value)}
    {added node : TreeNode Key Value}
    (different : node.id ≠ added.id) :
    node ∈ below ++ added :: above ↔ node ∈ below ++ above := by
  have isOther : node ≠ added := fun same => different (congrArg TreeNode.id same)
  simp [isOther]

/-! ## The arena -/

/-- The nodes of the walk and the free slots are all slots of the arena, each once. -/
theorem Formed.slots_perm (formed : tree.Formed nodes) :
    (tree.shape.ids ++ tree.free).Perm (List.range tree.slots.size) := by
  have live_iff (id : NodeId) : id ∈ tree.shape.ids ↔ tree.entry? id ≠ none := by
    rw [formed.ids_eq, ← formed.entry?_isSome_iff, Option.isSome_iff_ne_none]
  refine (List.perm_ext_iff_of_nodup ?_ List.nodup_range).mpr ?_
  · refine List.nodup_append.mpr ⟨?_, formed.arena.distinct, ?_⟩
    · rw [formed.ids_eq]
      exact formed.distinct
    · rintro id inWalk _ isFree rfl
      exact (live_iff id).mp inWalk ((formed.arena.mem_iff id).mp isFree).2
  · intro id
    rw [List.mem_append, live_iff, formed.arena.mem_iff, List.mem_range]
    constructor
    · rintro (live | ⟨inArena, -⟩)
      · exact Nat.lt_of_not_le (mt entry?_of_size_le live)
      · exact inArena
    · intro inArena
      by_cases vacant : tree.entry? id = none
      · exact .inr ⟨inArena, vacant⟩
      · exact .inl vacant

/-- Slots in use and free slots make up the arena. -/
theorem Formed.slots_size_eq (formed : tree.Formed nodes) :
    tree.slots.size = tree.size + tree.free.length := by
  have lengths := formed.slots_perm.length_eq
  rw [List.length_append, List.length_range, formed.ids_eq, List.length_map,
    ← formed.size_eq] at lengths
  exact lengths.symm

theorem Formed.size_le_slots (formed : tree.Formed nodes) : tree.size ≤ tree.slots.size := by
  rw [formed.slots_size_eq]
  exact Nat.le_add_right _ _

section Sizes

variable (tree : OrderedTree Key Value) (key : Key) (value : Value)

theorem slots_size_allocate (entry : Entry Key Value) :
    (tree.allocate entry).2.slots.size =
      if tree.free = [] then tree.slots.size + 1 else tree.slots.size := by
  cases free : tree.free <;> simp [allocate, free]

theorem sizes_insert :
    (tree.insert key value = (false, tree)) ∨
      (tree.insert key value).2.size = tree.size + 1 ∧
        (tree.insert key value).2.slots.size =
          if tree.free = [] then tree.slots.size + 1 else tree.slots.size := by
  cases located : tree.locate key with
  | present id =>
      exact .inl (by simp [OrderedTree.insert, located])
  | absent below above =>
      refine .inr ?_
      simp only [OrderedTree.insert, located, (relinked _ _ _ _ _).slots_size,
        slots_size_allocate, and_self]

theorem sizes_remove :
    (tree.remove key).2.size ≤ tree.size ∧
      (tree.remove key).2.slots.size = tree.slots.size := by
  unfold OrderedTree.remove
  split
  · exact ⟨Nat.le_refl _, rfl⟩
  · split
    · exact ⟨Nat.le_refl _, rfl⟩
    · refine ⟨Nat.sub_le _ _, (relinked _ _ _ _ _).slots_size.trans ?_⟩
      simp [release]

theorem sizes_set :
    (tree.set key value).2.size = tree.size ∧
      (tree.set key value).2.slots.size = tree.slots.size := by
  unfold OrderedTree.set
  split <;> simp [OrderedTree.setValue, modifyEntry]

end Sizes

/-- A change extends the arena only where all slots are in use. -/
theorem Formed.slots_size_apply
    (formed : tree.Formed nodes)
    (change : TreeChange Key Value) :
    (change.apply tree).2.slots.size = change.peak tree tree.slots.size := by
  have slots_size := formed.slots_size_eq
  have within := formed.size_le_slots
  cases change with
  | insert key value =>
      show (tree.insert key value).2.slots.size =
        max tree.slots.size (tree.insert key value).2.size
      rcases tree.sizes_insert key value with unchanged | ⟨size_eq, slots_eq⟩
      · rw [unchanged, Nat.max_eq_left within]
      · rw [size_eq, slots_eq]
        split
        next noneFree =>
          rw [noneFree, List.length_nil] at slots_size
          omega
        next someFree =>
          have := List.length_pos_iff.mpr someFree
          omega
  | remove key =>
      show (tree.remove key).2.slots.size = max tree.slots.size (tree.remove key).2.size
      have sizes := tree.sizes_remove key
      omega
  | clear =>
      rfl
  | set key value =>
      show (tree.set key value).2.slots.size = max tree.slots.size (tree.set key value).2.size
      have sizes := tree.sizes_set key value
      omega

/-- A tree that is put together has a slot for each of its keys. -/
theorem slots_size_decode
    {format : TreeFormat Key Value}
    {bytes : Bytes}
    (decoded : format.decode bytes = .ok tree) :
    tree.slots.size = tree.size := by
  rcases TreeFormat.accepts_of_decode decoded with
    ⟨-, rfl⟩ | ⟨root, records, linkTree, pairs, -, -, rfl⟩
  · rfl
  · simp [TreeFormat.assemble]

/-- The arena has as many slots as the tree ever had keys at once. -/
theorem Reachable.slots_size_eq_peak
    {order : Order Key}
    {peak : Nat}
    (reachable : Reachable order peak tree) :
    tree.slots.size = peak := by
  induction reachable with
  | new =>
      rfl
  | decoded _ decode_eq =>
      exact slots_size_decode decode_eq
  | changed reachable change inductionHypothesis =>
      obtain ⟨nodes, formed⟩ := reachable.formed
      rw [formed.slots_size_apply change, inductionHypothesis]
  | written _ write_eq inductionHypothesis =>
      obtain ⟨_, rfl⟩ := setValueAt_eq_ok_iff.mp write_eq
      simpa [OrderedTree.setValue, modifyEntry] using inductionHypothesis

/-! ## Handles -/

/--
What happens to the handles of a tree that once had `peak` keys, when a key is
added or removed, and how its slots are shared between the walk and the free list.
-/
structure StableHandles (tree : OrderedTree Key Value) (peak : Nat) : Prop where
  /-- A new key gets a stale handle, and every other handle is what it was. -/
  inserted :
    ∀ key value,
      (tree.insert key value).1 = true →
      ∃ id,
        tree.keyAt id = .error ⟨id⟩ ∧
          (tree.insert key value).2.keyAt id = .ok key ∧
            (tree.insert key value).2.valueAt id = .ok value ∧
              ∀ other, other ≠ id → SameBehind tree (tree.insert key value).2 other
  refused : ∀ key value, (tree.insert key value).1 = false → (tree.insert key value).2 = tree
  /-- A removed key's handle goes stale, and every other handle is what it was. -/
  removed :
    ∀ key value,
      (tree.remove key).1 = some value →
      ∃ id,
        tree.find? key = some id ∧
          tree.valueAt id = .ok value ∧
            (tree.remove key).2.keyAt id = .error ⟨id⟩ ∧
              ∀ other, other ≠ id → SameBehind tree (tree.remove key).2 other
  missed : ∀ key, (tree.remove key).1 = none → (tree.remove key).2 = tree
  distinct : tree.shape.ids.Nodup
  live_iff : ∀ id, (tree.entryAt id).toBool = true ↔ id ∈ tree.shape.ids
  /-- The walk and the free list share the slots of the arena, and each has its own once. -/
  slots_perm : (tree.shape.ids ++ tree.free).Perm (List.range tree.slots.size)
  slots_size_eq : tree.slots.size = peak

namespace Formed

/-- A new key gets a stale handle, and every other handle is what it was. -/
theorem handles_insert
    (formed : tree.Formed nodes)
    {key : Key}
    {value : Value}
    (answer : (tree.insert key value).1 = true) :
    ∃ id,
      tree.keyAt id = .error ⟨id⟩ ∧
        (tree.insert key value).2.keyAt id = .ok key ∧
          (tree.insert key value).2.valueAt id = .ok value ∧
            ∀ other, other ≠ id → SameBehind tree (tree.insert key value).2 other := by
  rcases formed.inserts key value with unchanged | ⟨below, above, id, rfl, vacant, _, resultFormed⟩
  · rw [unchanged] at answer
    contradiction
  · have isNode : ⟨id, key, value⟩ ∈ below ++ (⟨id, key, value⟩ : TreeNode Key Value) :: above := by
      simp
    have stale : tree.keyAt id = .error ⟨id⟩ := by
      simp [keyAt, entryAt, vacant, Except.map]
    refine ⟨id, stale, resultFormed.keyAt_eq isNode, resultFormed.valueAt_eq isNode, ?_⟩
    intro other different
    refine formed.sameBehind resultFormed ?_
    rintro node rfl
    exact mem_middle_iff different

/-- A removed key's handle goes stale, and every other handle is what it was. -/
theorem handles_remove
    (formed : tree.Formed nodes)
    {key : Key}
    {value : Value}
    (answer : (tree.remove key).1 = some value) :
    ∃ id,
      tree.find? key = some id ∧
        tree.valueAt id = .ok value ∧
          (tree.remove key).2.keyAt id = .error ⟨id⟩ ∧
            ∀ other, other ≠ id → SameBehind tree (tree.remove key).2 other := by
  rcases formed.removes key with
    unchanged | ⟨below, above, node, rfl, found, given, resultFormed⟩
  · rw [unchanged] at answer
    contradiction
  · have isNode : node ∈ below ++ node :: above := by
      simp
    have value_eq : node.value = value := Option.some.inj (given.symm.trans answer)
    have stranger := (nodup_map_middle.mp formed.distinct).1
    refine ⟨node.id, found, value_eq ▸ formed.valueAt_eq isNode,
      (resultFormed.stale stranger).1, ?_⟩
    intro other different
    refine formed.sameBehind resultFormed ?_
    rintro other rfl
    exact (mem_middle_iff different).symm

end Formed

/-- Handles are stable and no slot is lost, whatever has happened to a tree. -/
theorem Reachable.stableHandles
    {order : Order Key}
    {peak : Nat}
    (reachable : Reachable order peak tree) :
    tree.StableHandles peak := by
  obtain ⟨nodes, formed⟩ := reachable.formed
  exact {
    inserted := fun _ _ answer => formed.handles_insert answer
    refused := by
      intro key value answer
      rcases formed.inserts key value with unchanged | ⟨_, _, _, _, _, added, _⟩
      · rw [unchanged]
      · rw [added] at answer
        contradiction
    removed := fun _ _ answer => formed.handles_remove answer
    missed := by
      intro key answer
      rcases formed.removes key with unchanged | ⟨_, _, _, _, _, given, _⟩
      · rw [unchanged]
      · rw [given] at answer
        contradiction
    distinct := by
      rw [formed.ids_eq]
      exact formed.distinct
    live_iff := by
      intro id
      rw [formed.ids_eq, ← formed.entry?_isSome_iff]
      cases found : tree.entry? id <;> simp [entryAt, found, Except.toBool]
    slots_perm := formed.slots_perm
    slots_size_eq := reachable.slots_size_eq_peak }

/-- Five keys, of which the topmost one with two children is gone; its successor's handle stays. -/
theorem stableHandles_halves :
    let order : Order Nat := Order.byRank fun number => number / 2
    let changes : List (TreeChange Nat Char) :=
      [.insert 8 'a', .insert 4 'b', .insert 12 'c', .insert 10 'd', .insert 14 'e', .remove 9]
    let tree := (TreeChange.run (empty order) changes).2
    tree.StableHandles 5 ∧ tree.free = [0] ∧ (tree.keyAt 3).toOption = some 10 := by
  intro order changes tree
  have stable : tree.StableHandles (TreeChange.runPeak (empty order) 0 changes) :=
    Reachable.stableHandles (Reachable.new.run changes)
  have peak_eq : TreeChange.runPeak (empty order) 0 changes = 5 := by
    decide +kernel
  rw [peak_eq] at stable
  exact ⟨stable, by decide +kernel, by decide +kernel⟩

end OrderedIndex.OrderedTree
