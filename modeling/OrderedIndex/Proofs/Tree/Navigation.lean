import OrderedIndex.Proofs.Tree.Cursor
import OrderedIndex.Proofs.Tree.Lifetime

namespace OrderedIndex

/-!
# Moving over a tree

A cursor of any tree that can come about shows the keys of the tree in order,
and every sequence of moves is one of a position among them.  A copy of a cursor
keeps its place while the cursor moves on.
-/

/-! ## Copies -/

/-- A cursor, or its position, with the copies of it that were kept, the latest first. -/
structure Kept (State : Type) where
  current : State
  copies : List State

namespace Kept

variable {State : Type}

/-- Keep a copy, which `clone` makes. -/
def save (clone : State → State) (kept : Kept State) : Kept State :=
  ⟨kept.current, clone kept.current :: kept.copies⟩

/-- Go on with a copy of a copy; nothing changes if there is no such copy. -/
def restore (clone : State → State) (kept : Kept State) (copy : Nat) : Kept State :=
  ⟨(kept.copies[copy]?.map clone).getD kept.current, kept.copies⟩

/-- Two cursors and their copies correspond one by one. -/
structure Related
    {Other : Type}
    (relation : State → Other → Prop)
    (kept : Kept State)
    (others : Kept Other) :
    Prop where
  current : relation kept.current others.current
  copies : List.Forall₂ relation kept.copies others.copies

variable
  {Other : Type}
  {relation : State → Other → Prop}
  {kept : Kept State}
  {others : Kept Other}

/-- Copies of related states are related. -/
theorem Related.save
    {clone : State → State}
    {cloneOther : Other → Other}
    (related : Related relation kept others)
    (clones : ∀ {state other}, relation state other → relation (clone state) (cloneOther other)) :
    Related relation (kept.save clone) (others.save cloneOther) :=
  ⟨related.current, .cons (clones related.current) related.copies⟩

/-- Going back to the same copy on both sides keeps the sides related. -/
theorem Related.restore
    {clone : State → State}
    {cloneOther : Other → Other}
    (related : Related relation kept others)
    (clones : ∀ {state other}, relation state other → relation (clone state) (cloneOther other))
    (copy : Nat) :
    Related relation (kept.restore clone copy) (others.restore cloneOther copy) := by
  obtain ⟨current, copies⟩ := related
  refine ⟨?_, copies⟩
  simp only [Kept.restore]
  generalize kept.copies = copied at copies
  generalize others.copies = otherCopied at copies
  induction copies generalizing copy with
  | nil =>
      exact current
  | cons first _ inductionHypothesis =>
      cases copy with
      | zero =>
          exact clones first
      | succ copy =>
          exact inductionHypothesis copy

end Kept

/-! ## Moves -/

/-- What is done with a tree cursor. -/
inductive TreeMove (Key : Type) where
  | plain (move : Move Key)
  /-- Keep a copy of the cursor. -/
  | save
  /-- Go back to a copy, counted from the latest. -/
  | restore (copy : Nat)
  deriving Repr, DecidableEq

/-- What can be seen of a tree cursor after a move. -/
structure TreeObservation (Key Value : Type) where
  result : Except IndexError Report
  available : Bool
  node? : Option NodeId
  key : Except IndexError Key
  entry : Except IndexError (Key × Value)

namespace TreeMove

variable {Key Value : Type}

/-- Make a move. -/
def perform (kept : Kept (TreeCursor Key Value)) :
    TreeMove Key → StoreM (Except IndexError Report × Kept (TreeCursor Key Value))
  | .plain move => do
      let (result, moved) ← Cursor.perform kept.current move
      return (result, { kept with current := moved })
  | .save => return (.ok .placed, kept.save TreeCursor.clone)
  | .restore copy => return (.ok .placed, kept.restore TreeCursor.clone copy)

/-- See a cursor after a move. -/
def observe (result : Except IndexError Report) (cursor : TreeCursor Key Value) :
    TreeObservation Key Value where
  result := result
  available := Cursor.available cursor
  node? := cursor.node?
  key := Cursor.get cursor
  entry := cursor.entry

/-- Make moves one after the other and see each. -/
def run (kept : Kept (TreeCursor Key Value)) :
    List (TreeMove Key) →
      StoreM (List (TreeObservation Key Value) × Kept (TreeCursor Key Value))
  | [] => return ([], kept)
  | move :: rest => do
      let (result, moved) ← perform kept move
      let (observations, final) ← run moved rest
      return (observe result moved.current :: observations, final)

/-- Make a move over ordered keys; a copy of a position is the position. -/
def performOnKeys (order : Order Key) (keys : List Key) (kept : Kept Position) :
    TreeMove Key → Report × Kept Position
  | .plain move =>
      let (report, moved) := kept.current.perform order keys move
      (report, { kept with current := moved })
  | .save => (.placed, kept.save id)
  | .restore copy => (.placed, kept.restore id copy)

/-- See a position among the nodes of a tree in the order of its walk. -/
def observeAt (tree : OrderedTree Key Value) (report : Report) (position : Position) :
    TreeObservation Key Value where
  result := .ok report
  available := position.isOn
  node? := (position.get tree.nodes).toOption
  key := position.get tree.keys
  entry := position.get tree.toList

/-- Make moves over the keys of a tree one after the other and see each. -/
def runOnKeys (tree : OrderedTree Key Value) (kept : Kept Position) :
    List (TreeMove Key) → List (TreeObservation Key Value)
  | [] => []
  | move :: rest =>
      let (report, moved) := performOnKeys tree.order tree.keys kept move
      observeAt tree report moved.current :: runOnKeys tree moved rest

end TreeMove

namespace TreeCursor

variable
  {Key Value : Type}
  {tree : OrderedTree Key Value}
  {nodes : List (TreeNode Key Value)}
  {cursor : TreeCursor Key Value}
  {position : Position}

namespace Stands

/-- A copy of a cursor stands where the cursor stands. -/
theorem clone (stands : Stands tree nodes cursor position) :
    Stands tree nodes cursor.clone position :=
  stands

theorem node?_eq (stands : Stands tree nodes cursor position) :
    cursor.node? = (position.get (nodes.map TreeNode.id)).toOption := by
  cases stands with
  | on nodes_eq =>
      simp [node?, Position.get, nodes_eq, Except.toOption]
  | _ =>
      rfl

theorem entry_eq
    (represents : tree.Represents nodes)
    (stands : Stands tree nodes cursor position) :
    cursor.entry = position.get (nodes.map TreeNode.pair) := by
  cases stands with
  | on nodes_eq =>
      simp [entry, node?, represents.entry?_eq nodes_eq, Position.get, nodes_eq, TreeNode.pair]
  | _ =>
      rfl

/-- What is seen of a cursor is what is seen of its position. -/
theorem observe_eq
    (represents : tree.Represents nodes)
    (stands : Stands tree nodes cursor position)
    (report : Report) :
    TreeMove.observe (.ok report) cursor = TreeMove.observeAt tree report position := by
  have available : Cursor.available cursor = position.isOn := stands.available_eq
  have get : Cursor.get cursor = position.get (nodes.map TreeNode.key) :=
    stands.get_eq represents
  rw [TreeMove.observe, TreeMove.observeAt, available, stands.node?_eq, get,
    stands.entry_eq represents, represents.nodes_eq, represents.keys_eq, represents.toList_eq]

/-- A move leads a cursor where it leads the position, without a call on any store. -/
theorem perform_eq
    [Std.TransCmp tree.order]
    (represents : tree.Represents nodes)
    (stands : Stands tree nodes cursor position)
    (move : Move Key) :
    ∃ moved,
      Cursor.perform cursor move =
          pure (.ok (position.perform tree.order tree.keys move).1, moved) ∧
        Stands tree nodes moved (position.perform tree.order tree.keys move).2 := by
  have length_eq : tree.keys.length = nodes.length := by
    rw [represents.keys_eq, List.length_map]
  cases move with
  | next =>
      obtain ⟨answer, standsThere⟩ := stands.next represents
      rw [Position.perform, length_eq]
      exact ⟨cursor.next.2, by rw [Position.found, ← answer]; rfl, standsThere⟩
  | previous =>
      obtain ⟨answer, standsThere⟩ := stands.previous represents
      rw [Position.perform]
      exact ⟨cursor.previous.2, by rw [Position.found, ← answer]; rfl, standsThere⟩
  | first =>
      obtain ⟨answer, standsThere⟩ := stands.to_beforeFirst.next represents
      rw [Position.perform, length_eq]
      exact ⟨cursor.beforeFirst.next.2, by rw [Position.found, ← answer]; rfl, standsThere⟩
  | last =>
      obtain ⟨answer, standsThere⟩ := stands.to_afterLast.previous represents
      rw [Position.perform, length_eq]
      exact ⟨cursor.afterLast.previous.2, by rw [Position.found, ← answer]; rfl, standsThere⟩
  | beforeFirst =>
      exact ⟨cursor.beforeFirst, rfl, stands.to_beforeFirst⟩
  | afterLast =>
      rw [Position.perform, length_eq]
      exact ⟨cursor.afterLast, rfl, stands.to_afterLast⟩
  | before key =>
      rw [represents.keys_eq]
      exact ⟨cursor.before key, rfl, stands.to_before represents key⟩
  | after key =>
      rw [represents.keys_eq]
      exact ⟨cursor.after key, rfl, stands.to_after represents key⟩

end Stands

end TreeCursor

/-! ## Runs -/

/-- There is no element at a position exactly if the position is refused. -/
theorem Position.toOption_get_eq_none_iff
    {Element : Type}
    {elements : List Element}
    {position : Position} :
    (position.get elements).toOption = none ↔
      position.get elements = .error .invalidPosition := by
  cases position with
  | on place =>
      cases found : elements[place]? <;> simp [Position.get, found, Except.toOption]
  | gap place =>
      simp [Position.get, Except.toOption]

/-- A cursor shows a node, a key and an entry unless it is in a gap, and none of them there. -/
structure TreeObservation.Consistent
    {Key Value : Type}
    (seen : TreeObservation Key Value) :
    Prop where
  node : seen.node? = none ↔ seen.available = false
  key : seen.key = .error .invalidPosition ↔ seen.available = false
  entry : seen.entry = .error .invalidPosition ↔ seen.available = false

namespace TreeMove

variable
  {Key Value : Type}
  {tree : OrderedTree Key Value}
  {nodes : List (TreeNode Key Value)}
  {kept : Kept (TreeCursor Key Value)}
  {positions : Kept Position}

theorem observeAt_consistent
    (represents : tree.Represents nodes)
    {position : Position}
    (within : position.Within nodes.length)
    (report : Report) :
    (observeAt tree report position).Consistent := by
  have gap {Element : Type} (image : TreeNode Key Value → Element) :
      position.get (nodes.map image) = .error .invalidPosition ↔ position.isOn = false := by
    refine Position.get_eq_error_iff ?_
    rwa [List.length_map]
  constructor
  · have nodeGap := gap TreeNode.id
    rw [← represents.nodes_eq] at nodeGap
    exact Position.toOption_get_eq_none_iff.trans nodeGap
  · have keyGap := gap TreeNode.key
    rwa [← represents.keys_eq] at keyGap
  · have entryGap := gap TreeNode.pair
    rwa [← represents.toList_eq] at entryGap

/-- A move of a cursor and its copies is one of their positions. -/
theorem perform_eq
    [Std.TransCmp tree.order]
    (represents : tree.Represents nodes)
    (related : Kept.Related (TreeCursor.Stands tree nodes) kept positions)
    (move : TreeMove Key) :
    ∃ moved,
      perform kept move =
          pure (.ok (performOnKeys tree.order tree.keys positions move).1, moved) ∧
        Kept.Related (TreeCursor.Stands tree nodes) moved
          (performOnKeys tree.order tree.keys positions move).2 := by
  cases move with
  | plain move =>
      obtain ⟨moved, performed, stands⟩ := related.current.perform_eq represents move
      refine ⟨{ kept with current := moved }, ?_, stands, related.copies⟩
      rw [perform, performed]
      rfl
  | save =>
      exact ⟨kept.save TreeCursor.clone, rfl, related.save TreeCursor.Stands.clone⟩
  | restore copy =>
      exact ⟨kept.restore TreeCursor.clone copy, rfl,
        related.restore TreeCursor.Stands.clone copy⟩

/-- A run of moves shows what the run of positions shows, without a call on any store. -/
theorem run_eq
    [Std.TransCmp tree.order]
    (represents : tree.Represents nodes)
    (related : Kept.Related (TreeCursor.Stands tree nodes) kept positions)
    (moves : List (TreeMove Key)) :
    (∃ final, run kept moves = pure (runOnKeys tree positions moves, final)) ∧
      ∀ seen ∈ runOnKeys tree positions moves, seen.Consistent := by
  induction moves generalizing kept positions with
  | nil =>
      exact ⟨⟨kept, rfl⟩, List.forall_mem_nil _⟩
  | cons move rest inductionHypothesis =>
      obtain ⟨moved, performed, relatedThere⟩ := perform_eq represents related move
      obtain ⟨⟨final, ran⟩, consistent⟩ := inductionHypothesis relatedThere
      have standsThere := relatedThere.current
      constructor
      · refine ⟨final, ?_⟩
        rw [run, performed, pure_bind]
        dsimp only
        rw [ran, pure_bind, standsThere.observe_eq represents]
        rfl
      · refine List.forall_mem_cons.mpr ⟨?_, consistent⟩
        exact observeAt_consistent represents standsThere.within _

end TreeMove

/-! ## Every reachable tree -/

/-- What cursors show of a tree, as the list of its keys, which ascend strictly. -/
structure OrderedTree.ShownByCursors {Key Value : Type} (tree : OrderedTree Key Value) : Prop where
  ascending : Order.Ascending tree.order tree.keys
  length_eq : tree.keys.length = tree.size
  walk_eq : tree.shape.toList = tree.nodes.zip tree.keys
  held_eq :
    (tree.nodes.map fun id => (tree.keyAt id, tree.valueAt id)) =
      tree.toList.map fun pair => (.ok pair.1, .ok pair.2)
  /-- Every sequence of moves shows what the positions among the keys show. -/
  run_eq :
    ∀ moves,
      ∃ final,
        TreeMove.run ⟨tree.cursor, []⟩ moves =
          pure (TreeMove.runOnKeys tree ⟨.gap 0, []⟩ moves, final)
  consistent : ∀ moves, ∀ seen ∈ TreeMove.runOnKeys tree ⟨.gap 0, []⟩ moves, seen.Consistent
  /-- Exactly the lesser keys are in front of the gap before a key. -/
  before_eq :
    ∀ key,
      ∃ place,
        Position.before (tree.order key) tree.keys = .gap place ∧
          tree.keys.take place = tree.keys.filter fun stored => tree.order stored key == .lt
  /-- Exactly the keys that are not greater are in front of the gap after a key. -/
  after_eq :
    ∀ key,
      ∃ place,
        Position.after (tree.order key) tree.keys = .gap place ∧
          tree.keys.take place = tree.keys.filter fun stored => (tree.order stored key).isLE

namespace OrderedTree

variable
  {Key Value : Type}
  {tree : OrderedTree Key Value}
  {nodes : List (TreeNode Key Value)}

theorem Represents.showsInOrder
    [Std.TransCmp tree.order]
    (represents : tree.Represents nodes) :
    tree.ShownByCursors := by
  have ascending : Order.Ascending tree.order tree.keys := by
    rw [represents.keys_eq]
    exact represents.ascending
  have startsAtFront :
      Kept.Related (TreeCursor.Stands tree nodes) ⟨tree.cursor, []⟩ ⟨.gap 0, []⟩ :=
    ⟨.beforeFirst, .nil⟩
  refine {
    ascending := ascending
    length_eq := by rw [represents.keys_eq, List.length_map, represents.size_eq]
    walk_eq := ?_
    held_eq := ?_
    run_eq := fun moves => (TreeMove.run_eq represents startsAtFront moves).1
    consistent := fun moves => (TreeMove.run_eq represents startsAtFront moves).2
    before_eq := ?_
    after_eq := ?_ }
  · rw [represents.sequence, represents.nodes_eq, represents.keys_eq, List.zip_map']
    rfl
  · rw [represents.nodes_eq, represents.toList_eq, List.map_map, List.map_map]
    refine List.map_congr_left ?_
    intro node member
    obtain ⟨previous, next, found⟩ := represents.linked.entry_of_mem member
    simp [keyAt, valueAt, entryAt, found, Except.map]
  · intro key
    refine ⟨_, rfl, ?_⟩
    rw [Order.take_lower, (ascending.separates key).lower_eq_filter]
    simp only [Order.turned_lt tree.order _ key]
  · intro key
    refine ⟨_, rfl, ?_⟩
    rw [Order.take_notUpper, (ascending.separates key).notUpper_eq_filter]
    simp only [Order.turned_isLE tree.order _ key]

/-- Cursors show the keys of every tree in order, all its life. -/
theorem Reachable.shownByCursors
    {order : Order Key}
    [Std.TransCmp order]
    {peak : Nat}
    (reachable : Reachable order peak tree) :
    tree.ShownByCursors := by
  obtain ⟨nodes, represents⟩ := reachable.represents
  have lawful : Std.TransCmp tree.order := by
    rwa [reachable.order_eq]
  exact represents.showsInOrder

/-- Three keys in the order of halves, where `9` is the key `8`, and a copy is gone back to. -/
theorem shownByCursors_halves :
    let order : Order Nat := Order.byRank fun number => number / 2
    let changes : List (TreeChange Nat Char) := [.insert 8 'a', .insert 4 'b', .insert 12 'c']
    let tree := (TreeChange.run (empty order) changes).2
    let moves : List (TreeMove Nat) :=
      [.plain (.after 9), .save, .plain .next, .plain .next, .restore 0, .plain .previous]
    tree.ShownByCursors ∧
      ∃ final,
        TreeMove.run ⟨tree.cursor, []⟩ moves =
            pure (TreeMove.runOnKeys tree ⟨.gap 0, []⟩ moves, final) ∧
          (TreeMove.runOnKeys tree ⟨.gap 0, []⟩ moves).map (·.node?) =
            [none, none, some 2, none, none, some 0] := by
  intro order changes tree moves
  have shown := Reachable.shownByCursors (Reachable.new.run changes : Reachable order _ tree)
  obtain ⟨final, ran⟩ := shown.run_eq moves
  exact ⟨shown, final, ran, by decide⟩

end OrderedTree

end OrderedIndex
