import OrderedIndex.Proofs.Table.Questions
import OrderedIndex.Proofs.Table.Tuples
import OrderedIndex.Proofs.Table.ValueCursor

namespace OrderedIndex

/-!
# Stops of a table

A cursor sees a table as a chain of stops: it goes from one to the next, finds
them by key and opens a cursor over the values of each.  What a table stores
under its keys does not matter.
-/

variable {Key Value : Type}

theorem TableKind.Admits.ascending
    {kind : TableKind Value}
    {values : List Value}
    (admits : kind.Admits values) :
    Order.Ascending (kind.order?.getD Order.indifferent) values := by
  cases kind with
  | unique order? =>
      obtain ⟨value, rfl⟩ := List.length_eq_one_iff.mp admits
      exact List.pairwise_singleton _ value
  | duplicates order =>
      exact admits.2

namespace TreeNode

/-- The stop of a node that stores values in some form. -/
def stop {Stored : Type} (values : Stored → List Value) (node : TreeNode Key Stored) :
    Stop Key Value :=
  ⟨node.id, node.key, values node.value⟩

variable {Stored : Type} (values : Stored → List Value) (nodes : List (TreeNode Key Stored))

theorem firstOr_stop (next : Option NodeId) :
    firstOr next (nodes.map (stop values)) = firstOr next nodes := by
  cases nodes <;> rfl

theorem lastOr_stop (previous : Option NodeId) :
    lastOr previous (nodes.map (stop values)) = lastOr previous nodes := by
  induction nodes generalizing previous with
  | nil =>
      rfl
  | cons node nodes inductionHypothesis =>
      exact inductionHypothesis (some node.id)

end TreeNode

open TreeNode

/-- A table seen as a chain of stops. -/
structure Table.Stops (table : Table Key Value) (stops : List (Stop Key Value)) : Prop where
  groups_eq : table.groups = stops.map TreeNode.pair
  keyCount_eq : table.keyCount = stops.length
  first_eq : (table.entries.ask fun tree => tree.first) = firstOr none stops
  last_eq : (table.entries.ask fun tree => tree.last) = lastOr none stops
  next?_eq :
    ∀ {below stop above},
      stops = below ++ stop :: above →
      (table.entries.ask fun tree => tree.next? stop.id) = firstOr none above
  previous?_eq :
    ∀ {below stop above},
      stops = below ++ stop :: above →
      (table.entries.ask fun tree => tree.previous? stop.id) = lastOr none below
  key?_eq :
    ∀ {below stop above},
      stops = below ++ stop :: above →
      (table.entries.ask fun tree => tree.key? stop.id) = some stop.key
  findAtLeast?_eq :
    ∀ key,
      (table.entries.ask fun tree => tree.findAtLeast? key) =
        firstOr none (Order.notLower (table.spec.probeStop key) stops)
  findAbove?_eq :
    ∀ key,
      (table.entries.ask fun tree => tree.findAbove? key) =
        firstOr none (Order.upper (table.spec.probeStop key) stops)
  ensures_valuesAt :
    ∀ {regime : Regime} {below stop above},
      stops = below ++ stop :: above →
      Ensures regime (table.valuesAt stop.id) fun
        | .ok values => ValueCursor.Stands table.spec.valueOrder stop.value values (.gap 0)
        | .error _ => regime.mayFail

/-- A chain of stops in order, each with its values in order; a stop may have lost its values. -/
structure Table.OrderedStops
    (table : Table Key Value)
    (stops : List (Stop Key Value)) :
    Prop extends table.Stops stops where
  lawfulKeys : Std.TransCmp table.spec.keys
  lawfulValues : Std.TransCmp table.spec.valueOrder
  ascending_keys : Order.Ascending table.spec.keys (stops.map TreeNode.key)
  ascending_values : ∀ stop ∈ stops, Order.Ascending table.spec.valueOrder stop.value

namespace Table

variable {table : Table Key Value} {stops : List (Stop Key Value)}

/-- The nodes of the tree of keys are the stops of a table. -/
theorem Keeps.chain
    {Stored : Type}
    {tree : OrderedTree Key Stored}
    {wrap : OrderedTree Key Stored → Entries Key Value}
    {values : Stored → List Value}
    {valid : Stored → Prop}
    (keeps : table.Keeps tree wrap values valid)
    (asks :
      ∀ {Answer : Type} (question : {Stored : Type} → OrderedTree Key Stored → Answer),
        table.entries.ask question = question tree)
    {nodes : List (TreeNode Key Stored)}
    (represents : tree.Represents nodes)
    (opens :
      ∀ {regime : Regime} {below node above},
        nodes = below ++ node :: above →
        Ensures regime (table.valuesAt node.id) fun
          | .ok cursor =>
              ValueCursor.Stands table.spec.valueOrder (values node.value) cursor (.gap 0)
          | .error _ => regime.mayFail) :
    table.Stops (nodes.map (stop values)) := by
  have order_eq := keeps.order_eq
  have treeSound := keeps.treeSound
  have lawful := treeSound.lawful
  have probe_eq (key : Key) :
      (fun node => table.spec.probeStop key (stop values node)) = tree.probeNode key := by
    funext node
    rw [OrderedTree.probeNode, order_eq]
    rfl
  refine ⟨?_, ?_, ?_, ?_, ?_, ?_, ?_, ?_, ?_, ?_⟩
  · rw [keeps.groups_table, OrderedTree.groupsBy, represents.toList_eq, List.map_map,
      List.map_map]
    rfl
  · rw [keyCount, asks, represents.size_eq, List.length_map]
  · rw [asks, represents.first_eq, firstOr_stop]
  · rw [asks, represents.last_eq, lastOr_stop]
  · intro below found above stops_eq
    obtain ⟨belowNodes, node, aboveNodes, nodes_eq, _, rfl, rfl⟩ :=
      exists_split_of_map stops_eq
    rw [asks, firstOr_stop]
    exact represents.next?_eq nodes_eq
  · intro below found above stops_eq
    obtain ⟨belowNodes, node, aboveNodes, nodes_eq, rfl, rfl, _⟩ :=
      exists_split_of_map stops_eq
    rw [asks, lastOr_stop]
    exact represents.previous?_eq nodes_eq
  · intro below found above stops_eq
    obtain ⟨belowNodes, node, aboveNodes, nodes_eq, _, rfl, _⟩ :=
      exists_split_of_map stops_eq
    rw [asks]
    exact represents.key?_eq nodes_eq
  · intro key
    rw [asks, represents.findAtLeast?_eq, Order.notLower_map, firstOr_stop, probe_eq]
  · intro key
    rw [asks, represents.findAbove?_eq, Order.upper_map, firstOr_stop, probe_eq]
  · intro regime below found above stops_eq
    obtain ⟨belowNodes, node, aboveNodes, nodes_eq, _, rfl, _⟩ :=
      exists_split_of_map stops_eq
    exact opens nodes_eq

/-- A table with duplicates is a chain of stops, even if some have lost their values. -/
theorem Intact.chain
    {tree : OrderedTree Key (Group Value)}
    {policy : DuplicatePolicy Value}
    (intact : table.Intact tree policy) :
    ∃ stops, table.Stops stops := by
  obtain ⟨nodes, represents⟩ := intact.treeSound.represents
  refine ⟨_, intact.toKeeps.chain ?_ represents ?_⟩
  · intro Answer question
    rw [intact.entries_eq]
    rfl
  · intro regime below node above nodes_eq
    have member : node.pair ∈ tree.toList := by
      rw [represents.toList_eq, nodes_eq]
      simp
    have valueOrder_eq : table.spec.valueOrder = policy.order := by
      rw [TableSpec.valueOrder, intact.spec_kind]
      rfl
    unfold valuesAt
    rw [intact.entries_eq]
    dsimp only
    rw [represents.value?_eq nodes_eq, valueOrder_eq]
    exact ValueCursor.ensures_ofGroup (intact.allValid node.pair member)

/-- A sound table is a chain of stops. -/
theorem Sound.chain (sound : table.Sound) : ∃ stops, table.Stops stops := by
  cases entries : table.entries with
  | unique tree =>
      have stored := storedAs_unique sound entries
      have treeSound := stored.treeSound
      obtain ⟨nodes, represents⟩ := treeSound.represents
      refine ⟨_, stored.chain ?_ represents ?_⟩
      · intro Answer question
        rw [entries]
        rfl
      · intro regime below node above nodes_eq
        unfold valuesAt
        rw [entries]
        dsimp only
        rw [represents.value?_eq nodes_eq]
        refine Ensures.pure (.single rfl ?_)
        rw [TableSpec.valueOrder, kind_unique entries]
        rfl
  | duplicates tree policy =>
      exact (sound.intact entries).chain

/-- Where values cannot be compared, they are all equal. -/
theorem Sound.lawfulValueOrder (sound : table.Sound) : Std.TransCmp table.spec.valueOrder := by
  rw [TableSpec.valueOrder]
  cases ordered : table.spec.kind.order? with
  | none =>
      exact Order.indifferent_transCmp
  | some order =>
      exact sound.lawfulValues order ordered

namespace OrderedStops

/-- Every key splits the stops. -/
theorem split
    (ordered : table.OrderedStops stops)
    (key : Key) :
    Order.Split (table.spec.probeStop key) stops := by
  have lawful := ordered.lawfulKeys
  exact (ordered.ascending_keys.separates_map key).split

theorem ascending_listing (ordered : table.OrderedStops stops) :
    Order.Ascending table.spec.order (listing stops) := by
  have lawful := ordered.lawfulKeys
  exact OrderedIndex.ascending_listing ordered.ascending_keys ordered.ascending_values

end OrderedStops

namespace Stops

/-- The stops of a table are in order if its keys are. -/
theorem ascending_keys
    (chain : table.Stops stops)
    (ordered : table.spec.Ordered table.groups) :
    Order.Ascending table.spec.keys (stops.map TreeNode.key) := by
  rw [chain.groups_eq, TableSpec.Ordered, List.map_map] at ordered
  exact ordered

/-- The stops of a sound table are in order. -/
theorem ordered
    (chain : table.Stops stops)
    (sound : table.Sound) :
    table.OrderedStops stops where
  toStops := chain
  lawfulKeys := sound.lawfulKeys
  lawfulValues := sound.lawfulValueOrder
  ascending_keys := chain.ascending_keys sound.ordered
  ascending_values stop member := by
    have pairMember : stop.pair ∈ table.groups := by
      rw [chain.groups_eq]
      exact List.mem_map_of_mem member
    exact (sound.admitted stop.pair pairMember).ascending

/-- The stops of a table with duplicates are in order, whatever calls have failed. -/
theorem ordered_of_intact
    (chain : table.Stops stops)
    {tree : OrderedTree Key (Group Value)}
    {policy : DuplicatePolicy Value}
    (intact : table.Intact tree policy) :
    table.OrderedStops stops where
  toStops := chain
  lawfulKeys := intact.lawful
  lawfulValues := by
    rw [TableSpec.valueOrder, intact.spec_kind]
    exact intact.lawfulValues
  ascending_keys := chain.ascending_keys intact.ordered
  ascending_values stop member := by
    have pairMember : stop.pair ∈ table.groups := by
      rw [chain.groups_eq]
      exact List.mem_map_of_mem member
    rw [intact.groups_table] at pairMember
    obtain ⟨pair, inTree, pair_eq⟩ := List.mem_map.mp pairMember
    have values_eq : pair.2.toList = stop.value := congrArg Prod.snd pair_eq
    rw [TableSpec.valueOrder, intact.spec_kind, ← values_eq]
    exact (intact.allValid pair inTree).ascending

/-- The listing of the stops is that of the table. -/
theorem listing_eq (chain : table.Stops stops) :
    listing stops = table.toList.map Tuple.ofPair := by
  rw [listing_eq_tuples, toList_eq_tuples, chain.groups_eq]

theorem ascending_listing
    (chain : table.Stops stops)
    (sound : table.Sound) :
    Order.Ascending table.spec.order (listing stops) :=
  (chain.ordered sound).ascending_listing

end Stops

end Table

end OrderedIndex
