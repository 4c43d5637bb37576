import OrderedIndex.Proofs.Tree.Linked.Insert
import OrderedIndex.Proofs.Tree.Linked.Layout
import OrderedIndex.Proofs.Tree.Linked.Remove

namespace OrderedIndex

/-!
# Changing memory

A change of the layout of a tree gives the layout of the changed tree.  What is
read or written behind a handle is there, or the handle is stale.  Only an arena
that has no number left stands in the way of a change, namely of a key that
would need one.
-/

namespace LinkedTree

variable
  {Key Value : Type}
  {arithmetic : HeightArithmetic}
  {tree result : LinkedTree Key Value}
  {ordered : OrderedTree Key Value}
  {nodes : List (TreeNode Key Value)}
  {id : NodeId}

/-- Make a change over an arithmetic of heights. -/
def changeBy (arithmetic : HeightArithmetic) (tree : LinkedTree Key Value) :
    TreeChange Key Value → Except TreeFault (TreeAnswer Value × LinkedTree Key Value)
  | .insert key value => do
      let (answer, result) ← tree.insertBy arithmetic key value
      return (.told answer, result)
  | .remove key => do
      let (value?, result) ← tree.removeBy arithmetic key
      return (.given value?, result)
  | .clear => .ok (.done, tree.clear)
  | .set key value => do
      let (answer, result) ← tree.set key value
      return (.told answer, result)

/-- Make a change of a tree whose heights are bytes. -/
def change (tree : LinkedTree Key Value) (change : TreeChange Key Value) :
    Except TreeFault (TreeAnswer Value × LinkedTree Key Value) :=
  tree.changeBy .bytes change

/-! ## Handles -/

/--
A handle is used in memory as it is used in a tree, and that meets a fault exactly
if the slot is free or not in the arena.
-/
structure UsesHandles
    {Answer : Type}
    (tree : LinkedTree Key Value)
    (use : NodeId → Except TreeFault Answer)
    (expected : NodeId → Except StaleHandle Answer) :
    Prop where
  use_eq : ∀ id, use id = (expected id).mapError TreeFault.stale
  fault_iff : ∀ id fault, use id = .error fault ↔ tree.node? id = none ∧ fault = .stale ⟨id⟩

theorem root_of_modify
    {onNode : LinkedNode Key Value → LinkedNode Key Value}
    (modified : tree.modify id onNode = .ok result) :
    result.root = tree.root := by
  obtain ⟨node, -, same⟩ := bind_eq_ok_iff.mp modified
  rw [← Except.ok.inj same]

namespace Stores

/-- Whatever is done with the entry behind a handle, only a stale one is a fault. -/
theorem usesHandles
    {Answer : Type}
    {use : NodeId → Except TreeFault Answer}
    {expected : NodeId → Except StaleHandle Answer}
    (stores : tree.Stores ordered)
    (use_eq : ∀ id, use id = (expected id).mapError TreeFault.stale)
    (answer : NodeId → Entry Key Value → Answer)
    (expected_eq : ∀ id, expected id = (ordered.entryAt id).map (answer id)) :
    tree.UsesHandles use expected := by
  refine ⟨use_eq, ?_⟩
  intro id fault
  rw [use_eq, expected_eq, OrderedTree.entryAt, stores.entry?_eq]
  cases tree.node? id <;> simp [Except.map, Except.mapError, eq_comm]

/-- What is read behind a handle. -/
theorem usesHandles_read
    {Field : Type}
    (stores : tree.Stores ordered)
    (field : Entry Key Value → Field) :
    tree.UsesHandles (fun id => do return field (← tree.node id).toEntry)
      fun id => (ordered.entryAt id).map field :=
  stores.usesHandles (fun id => stores.read_eq id field) (fun _ => field) fun _ => rfl

/-- Writing behind a handle that is in use writes to the tree. -/
theorem setValueAt_ok
    (stores : tree.Stores ordered)
    (live : (ordered.entry? id).isSome)
    (value : Value) :
    ∃ result,
      tree.setValueAt id value = .ok result ∧ result.Stores (ordered.setValue id value) := by
  obtain ⟨entry, branch, found, read⟩ := stores.node_live live
  let write (entry : Entry Key Value) : Entry Key Value := { entry with value := value }
  obtain ⟨result, written, rechained⟩ := modify_entry read write
  refine ⟨result, written, ?_, ?_, ?_⟩
  · exact (rechained.under_eq ordered.shape).trans
      (congrArg (fun tree => tree.modifyEntry id write) stores.under_eq)
  · exact (root_of_modify written).trans stores.root_eq
  · exact stores.holds.congr fun other _ => rechained.branch?_eq other

end Stores

theorem empty_linked (order : Order Key) :
    (OrderedTree.empty order : OrderedTree Key Value).linked = empty order := by
  simp [OrderedTree.linked, OrderedTree.empty, empty, Shape.root?]

section Layouts

variable (formed : ordered.Formed nodes)
include formed

theorem setValueAt_linked (id : NodeId) (value : Value) :
    ordered.linked.setValueAt id value =
      ((ordered.setValueAt id value).map OrderedTree.linked).mapError TreeFault.stale := by
  have stores := stores_linked formed
  cases found : ordered.entry? id with
  | none =>
      rw [setValueAt, modify, stores.node_stale found]
      simp only [OrderedTree.setValueAt, OrderedTree.entryAt, found]
      rfl
  | some entry =>
      have live : (ordered.entry? id).isSome := by
        rw [found]
        rfl
      obtain ⟨result, written, resultStores⟩ := stores.setValueAt_ok live value
      obtain ⟨changed, changedFormed⟩ := formed.setValue_of_live live value
      rw [written, resultStores.eq_linked changedFormed]
      simp only [OrderedTree.setValueAt, OrderedTree.entryAt, found]
      rfl

/-! ## Changes -/

/-- A tree within the arena has far fewer keys than its size can count. -/
theorem size_lt_word (within : ordered.slots.size ≤ UInt32.size) :
    ordered.size + 1 < UInt64.size := by
  have words : UInt32.size + 1 < UInt64.size := by
    decide
  exact lt_of_le_of_lt (Nat.succ_le_succ (formed.size_le_slots.trans within)) words

/-- Where there is a slot or a number for another key, an insertion fits the arena. -/
theorem size_insert_le
    (within : ordered.slots.size ≤ UInt32.size)
    (room : ordered.free = [] → ordered.slots.size < UInt32.size)
    (key : Key)
    (value : Value) :
    (ordered.insert key value).2.size ≤ UInt32.size := by
  have slots_size := formed.slots_size_eq
  rcases ordered.sizes_insert key value with unchanged | ⟨size_eq, -⟩
  · rw [unchanged]
    exact formed.size_le_slots.trans within
  · rw [size_eq]
    by_cases noneFree : ordered.free = []
    · exact Nat.succ_le_of_lt (lt_of_le_of_lt formed.size_le_slots (room noneFree))
    · have := List.length_pos_iff.mpr noneFree
      omega

/-- Where there is none, a key that is absent meets the fault. -/
theorem insertBy_full
    (arithmetic : HeightArithmetic)
    (noneFree : ordered.free = [])
    (large : UInt32.size ≤ ordered.slots.size)
    (key : Key)
    (value : Value) :
    ordered.linked.insertBy arithmetic key value = .ok (false, ordered.linked) ∧
        ordered.insert key value = (false, ordered) ∨
      ordered.linked.insertBy arithmetic key value = .error .tooManyNodes ∧
        UInt32.size < (ordered.insert key value).2.size := by
  have stores := stores_linked formed
  have slots_size := formed.slots_size_eq
  rw [noneFree, List.length_nil] at slots_size
  rcases stores.search_cases formed key with
    ⟨_, _, _, _, _, _, _, searched, located⟩ | ⟨_, _, searched, located⟩
  · refine .inl ⟨?_, by simp only [OrderedTree.insert, located]⟩
    rw [LinkedTree.insertBy, searched]
    rfl
  · have refused (node : LinkedNode Key Value) :
        ordered.linked.allocate node = .error .tooManyNodes := by
      rw [allocate, stores.free_eq, noneFree]
      dsimp only
      rw [stores.nodes_size, if_neg (Nat.not_lt_of_le large)]
    have grown : (ordered.insert key value).2.size = ordered.size + 1 := by
      simp only [OrderedTree.insert, located]
    refine .inr ⟨?_, by omega⟩
    simp only [LinkedTree.insertBy, searched, refused]
    rfl

theorem insertBy_linked
    (precise : arithmetic.Exact)
    (within : ordered.slots.size ≤ UInt32.size)
    (key : Key)
    (value : Value) :
    ordered.linked.insertBy arithmetic key value =
      if (ordered.insert key value).2.size ≤ UInt32.size then
        .ok ((ordered.insert key value).1, (ordered.insert key value).2.linked)
      else
        .error .tooManyNodes := by
  by_cases room : ordered.free = [] → ordered.slots.size < UInt32.size
  · obtain ⟨result, inserted, resultStores⟩ :=
      (stores_linked formed).insertBy_ok precise formed room (size_lt_word formed within) key value
    obtain ⟨changed, changedFormed⟩ := formed.change (.insert key value)
    rw [if_pos (size_insert_le formed within room key value), inserted,
      resultStores.eq_linked changedFormed]
  · obtain ⟨noneFree, large⟩ : ordered.free = [] ∧ UInt32.size ≤ ordered.slots.size := by
      simpa using room
    rcases insertBy_full formed arithmetic noneFree large key value with
      ⟨inserted, unchanged⟩ | ⟨refused, overfull⟩
    · rw [inserted, unchanged, if_pos (formed.size_le_slots.trans within)]
    · rw [refused, if_neg (Nat.not_le_of_lt overfull)]

theorem removeBy_linked
    (precise : arithmetic.Exact)
    (within : ordered.slots.size ≤ UInt32.size)
    (key : Key) :
    ordered.linked.removeBy arithmetic key =
      .ok ((ordered.remove key).1, (ordered.remove key).2.linked) := by
  have small := Nat.lt_of_succ_lt (size_lt_word formed within)
  obtain ⟨result, removed, resultStores⟩ :=
    (stores_linked formed).removeBy_ok precise formed small key
  obtain ⟨changed, changedFormed⟩ := formed.change (.remove key)
  rw [removed, resultStores.eq_linked changedFormed]

theorem set_linked (key : Key) (value : Value) :
    ordered.linked.set key value =
      .ok ((ordered.set key value).1, (ordered.set key value).2.linked) := by
  have probed := (stores_linked formed).find?_eq formed key
  cases found : ordered.find? key with
  | none =>
      simp only [LinkedTree.set, probed, OrderedTree.set, found]
      rfl
  | some id =>
      obtain ⟨entry, isEntry⟩ := Option.isSome_iff_exists.mp (formed.isSome_of_find? found)
      simp only [LinkedTree.set, probed, OrderedTree.set, found, ok_bind,
        setValueAt_linked formed, OrderedTree.setValueAt, OrderedTree.entryAt, isEntry]
      rfl

/-- A change goes through unless the changed tree would need more numbers than there are. -/
theorem changeBy_linked
    (precise : arithmetic.Exact)
    (within : ordered.slots.size ≤ UInt32.size)
    (change : TreeChange Key Value) :
    ordered.linked.changeBy arithmetic change =
      if (change.apply ordered).2.size ≤ UInt32.size then
        .ok ((change.apply ordered).1, (change.apply ordered).2.linked)
      else
        .error .tooManyNodes := by
  have size_le := formed.size_le_slots.trans within
  cases change with
  | insert key value =>
      rw [changeBy, insertBy_linked formed precise within, TreeChange.apply]
      split <;> rfl
  | remove key =>
      have fits := (ordered.sizes_remove key).1.trans size_le
      rw [TreeChange.apply, if_pos fits, changeBy, removeBy_linked formed precise within]
      rfl
  | clear =>
      have fits : (ordered.clear.size) ≤ UInt32.size := Nat.zero_le _
      rw [TreeChange.apply, if_pos fits, OrderedTree.clear, empty_linked]
      rfl
  | set key value =>
      have fits := (ordered.sizes_set key value).1.trans_le size_le
      rw [TreeChange.apply, if_pos fits, changeBy, set_linked formed]
      rfl

theorem change_linked
    (within : ordered.slots.size ≤ UInt32.size)
    (change : TreeChange Key Value) :
    ordered.linked.change change =
      if (change.apply ordered).2.size ≤ UInt32.size then
        .ok ((change.apply ordered).1, (change.apply ordered).2.linked)
      else
        .error .tooManyNodes :=
  changeBy_linked formed HeightArithmetic.exact_bytes within change

end Layouts

end LinkedTree

end OrderedIndex
