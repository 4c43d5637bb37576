import OrderedIndex.Proofs.Tree.Chain

namespace OrderedIndex.OrderedTree

/-!
# The arena

What the operations on slots do to the slots, to the list of free ones and to
the two ends of the chain.  The numbers that are free are exactly those of the
arena's slots without an entry, each listed once, so a new entry always goes to
a vacant slot.
-/

open TreeNode

variable {Key Value : Type}

/-- The free list has every vacant slot of the arena once. -/
structure ArenaSound (tree : OrderedTree Key Value) : Prop where
  distinct : tree.free.Nodup
  mem_iff : ∀ id, id ∈ tree.free ↔ id < tree.slots.size ∧ tree.entry? id = none

/-- Slots beyond the arena hold nothing. -/
theorem entry?_of_size_le
    {tree : OrderedTree Key Value}
    {id : NodeId}
    (beyond : tree.slots.size ≤ id) :
    tree.entry? id = none := by
  simp [ entry?, Array.getElem?_eq_none beyond]

/-- Changing an entry changes one slot. -/
theorem entry?_modifyEntry
    (tree : OrderedTree Key Value)
    (id : NodeId)
    (change : Entry Key Value → Entry Key Value) :
    OrderedTree.entry? (tree.modifyEntry id change) =
      Slots.change tree.entry? (some id) change := by
  funext slot
  simp only [ entry?, modifyEntry, Slots.change, Option.some.injEq, Array.getElem?_modify]
  split
  · cases tree.slots[slot]? with
    | none =>
        rfl
    | some entry =>
        rfl
  · rfl

section SetValue

variable (tree : OrderedTree Key Value) (id : NodeId) (value : Value)

@[simp] theorem order_setValue : (tree.setValue id value).order = tree.order := rfl

@[simp] theorem shape_setValue : (tree.setValue id value).shape = tree.shape := rfl

@[simp] theorem size_setValue : (tree.setValue id value).size = tree.size := rfl

end SetValue

/-! ## The order -/

section Order

variable (tree : OrderedTree Key Value)

/-- Allocating a slot keeps the order. -/
@[simp] theorem order_allocate (entry : Entry Key Value) :
    (tree.allocate entry).2.order = tree.order := by
  unfold allocate
  cases tree.free <;> rfl

@[simp] theorem order_linkNext (before after : Option NodeId) :
    (tree.linkNext before after).order = tree.order := by
  cases before <;> rfl

@[simp] theorem order_linkPrevious (after before : Option NodeId) :
    (tree.linkPrevious after before).order = tree.order := by
  cases after <;> rfl

/-- An insertion keeps the order. -/
@[simp] theorem order_insert (key : Key) (value : Value) :
    (tree.insert key value).2.order = tree.order := by
  unfold insert
  cases tree.locate key <;> simp

/-- A removal keeps the order. -/
@[simp] theorem order_remove (key : Key) : (tree.remove key).2.order = tree.order := by
  unfold remove
  cases tree.find? key with
  | none =>
      rfl
  | some id =>
      cases found : tree.entry? id with
      | none =>
          simp [found]
      | some entry =>
          simp [found, release]

/-- A write keeps the order. -/
@[simp] theorem order_set (key : Key) (value : Value) :
    (tree.set key value).2.order = tree.order := by
  unfold set
  cases tree.find? key <;> rfl

end Order

/-! ## Relinking -/

/-- A tree with the same slots and ends, but for the links across one place. -/
structure Relinked
    (tree result : OrderedTree Key Value)
    (before after next previous : Option NodeId) :
    Prop where
  entry?_eq : result.entry? = Slots.splice tree.entry? before after next previous
  order_eq : result.order = tree.order
  free_eq : result.free = tree.free
  slots_size : result.slots.size = tree.slots.size
  first_eq : result.first = if before = none then next else tree.first
  last_eq : result.last = if after = none then previous else tree.last

/-- Letting the neighbours of a place name each other changes only their links. -/
theorem relinked
    (tree : OrderedTree Key Value)
    (before after next previous : Option NodeId) :
    Relinked tree ((tree.linkNext before next).linkPrevious after previous)
      before after next previous where
  entry?_eq := by
    cases before with
    | none =>
        cases after with
        | none =>
            rfl
        | some afterId =>
            exact entry?_modifyEntry _ _ _
    | some beforeId =>
        cases after with
        | none =>
            exact entry?_modifyEntry _ _ _
        | some afterId =>
            simp only [linkNext, linkPrevious, entry?_modifyEntry]
            rfl
  order_eq := by
    simp
  free_eq := by
    cases before <;> cases after <;> rfl
  slots_size := by
    cases before <;> cases after <;> simp [linkNext, linkPrevious, modifyEntry]
  first_eq := by
    cases before <;> cases after <;> rfl
  last_eq := by
    cases before <;> cases after <;> rfl

/-- Relinking keeps the free list right. -/
theorem ArenaSound.relink
    {tree result : OrderedTree Key Value}
    {before after next previous : Option NodeId}
    (sound : tree.ArenaSound)
    (relinked : Relinked tree result before after next previous) :
    result.ArenaSound where
  distinct := by
    rw [relinked.free_eq]
    exact sound.distinct
  mem_iff id := by
    rw [relinked.free_eq, relinked.slots_size, relinked.entry?_eq,
      Slots.splice_eq_none_iff]
    exact sound.mem_iff id

/-- A tree with one more entry, in a slot that was vacant. -/
structure Allocated
    (tree grown : OrderedTree Key Value)
    (id : NodeId)
    (entry : Entry Key Value) :
    Prop where
  vacant : tree.entry? id = none
  entry?_eq : grown.entry? = Slots.assign tree.entry? id (some entry)
  arena : grown.ArenaSound
  order_eq : grown.order = tree.order
  first_eq : grown.first = tree.first
  last_eq : grown.last = tree.last

/-- Where no slot is free, a new entry extends the arena. -/
theorem allocated_beyond
    {tree : OrderedTree Key Value}
    (sound : tree.ArenaSound)
    (noneFree : tree.free = [])
    (entry : Entry Key Value) :
    Allocated tree (tree.allocate entry).2 (tree.allocate entry).1 entry := by
  have result :
      tree.allocate entry =
        (tree.slots.size, { tree with slots := tree.slots.push (some entry) }) := by
    simp only [allocate, noneFree]
  have assigned :
      OrderedTree.entry? { tree with slots := tree.slots.push (some entry) } =
        Slots.assign tree.entry? tree.slots.size (some entry) := by
    funext slot
    simp only [ entry?, Slots.assign, Array.getElem?_push]
    by_cases isNew : tree.slots.size = slot
    · simp [isNew]
    · simp [isNew, Ne.symm isNew]
  rw [result]
  refine ⟨entry?_of_size_le (Nat.le_refl _), assigned, ⟨sound.distinct, ?_⟩, rfl, rfl, rfl⟩
  intro id
  have inUse := sound.mem_iff id
  rw [noneFree, iff_false_left List.not_mem_nil, not_and] at inUse
  rw [assigned]
  simp only [noneFree, List.not_mem_nil, Array.size_push, Slots.assign, false_iff, not_and]
  intro inArena
  by_cases isNew : tree.slots.size = id
  · simp [isNew]
  · rw [if_neg isNew]
    exact inUse (Nat.lt_of_le_of_ne (Nat.le_of_lt_succ inArena) (Ne.symm isNew))

/-- A new entry takes the slot that was freed last. -/
theorem allocated_within
    {tree : OrderedTree Key Value}
    (sound : tree.ArenaSound)
    {id : NodeId}
    {rest : List NodeId}
    (free : tree.free = id :: rest)
    (entry : Entry Key Value) :
    Allocated tree (tree.allocate entry).2 (tree.allocate entry).1 entry := by
  have result :
      tree.allocate entry =
        (id,
          { tree with
            slots := tree.slots.setIfInBounds id (some entry)
            free := rest }) := by
    simp only [allocate, free]
  obtain ⟨inArena, vacant⟩ := (sound.mem_iff id).mp (by simp [free])
  have assigned :
      OrderedTree.entry?
          { tree with
            slots := tree.slots.setIfInBounds id (some entry)
            free := rest } =
        Slots.assign tree.entry? id (some entry) := by
    funext slot
    simp only [ entry?, Slots.assign, Array.getElem?_setIfInBounds]
    by_cases isTarget : id = slot
    · subst slot
      simp [inArena]
    · simp [isTarget]
  have distinct := sound.distinct
  rw [free, List.nodup_cons] at distinct
  rw [result]
  refine ⟨vacant, assigned, ⟨distinct.2, ?_⟩, rfl, rfl, rfl⟩
  intro slot
  have others := sound.mem_iff slot
  rw [free, List.mem_cons] at others
  rw [assigned]
  simp only [Array.size_setIfInBounds, Slots.assign]
  by_cases isTarget : id = slot
  · subst slot
    simp [distinct.1]
  · rw [if_neg isTarget, ← others]
    exact (or_iff_right (Ne.symm isTarget)).symm

/-- An entry goes into the slot freed last, or into a new one if none is free. -/
theorem allocated
    {tree : OrderedTree Key Value}
    (sound : tree.ArenaSound)
    (entry : Entry Key Value) :
    Allocated tree (tree.allocate entry).2 (tree.allocate entry).1 entry := by
  cases free : tree.free with
  | nil =>
      exact allocated_beyond sound free entry
  | cons id rest =>
      exact allocated_within sound free entry

/-- Freeing a slot empties it. -/
theorem entry?_release
    (tree : OrderedTree Key Value)
    (id : NodeId) :
    OrderedTree.entry? (tree.release id) = Slots.assign tree.entry? id none := by
  funext slot
  simp only [release, entry?, Slots.assign, Array.getElem?_setIfInBounds]
  by_cases isTarget : id = slot
  · subst slot
    by_cases inArena : id < tree.slots.size <;> simp [inArena]
  · simp [isTarget]

/-- Freeing a slot in use keeps the free list right. -/
theorem ArenaSound.release
    {tree : OrderedTree Key Value}
    (sound : tree.ArenaSound)
    {id : NodeId}
    (live : tree.entry? id ≠ none) :
    (tree.release id).ArenaSound where
  distinct := by
    refine List.nodup_cons.mpr ⟨?_, sound.distinct⟩
    intro isFree
    exact live ((sound.mem_iff id).mp isFree).2
  mem_iff slot := by
    have inArena : id < tree.slots.size := by
      rcases Nat.lt_or_ge id tree.slots.size with inArena | beyond
      · exact inArena
      · exact (live (entry?_of_size_le beyond)).elim
    rw [entry?_release]
    simp only [OrderedTree.release, List.mem_cons, Array.size_setIfInBounds, Slots.assign]
    by_cases isTarget : id = slot
    · subst slot
      simp [inArena]
    · simp only [isTarget, ↓reduceIte, Ne.symm isTarget, false_or]
      exact sound.mem_iff slot

end OrderedIndex.OrderedTree
