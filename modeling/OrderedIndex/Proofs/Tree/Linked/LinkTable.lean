import OrderedIndex.Proofs.Tree.Linked.Logarithmic
import OrderedIndex.Proofs.Tree.SingleParents
import OrderedIndex.Proofs.Tree.Spanning
import OrderedIndex.Tree.Linked.LinkTable

namespace OrderedIndex

/-!
# Checked links in columns

The columns of records say what the links say, so naming meets no fault.  From
there on the links lead along a tree that has no record twice: the walk takes
two steps for each record of it, meets every one on the way down once, and ends
at the first that is not the next in order.  The records that it met, the last
one first, have every child before its parent, so the heights are measured as
the check of balances finds them.
-/

namespace Column

variable {Item : Type} {column : Array Item} {place : Nat} {item : Item}

/-- An item that is there is read without a fault. -/
theorem read_eq (found : column[place]? = some item) : read column place = .ok item := by
  rw [read, found]
  rfl

/-- A place in range is written without a fault. -/
theorem write_eq (inRange : place < column.size) :
    write column place item = .ok (column.setIfInBounds place item) :=
  if_pos inRange

end Column

namespace Checking

variable {First Second : Type}

@[simp] theorem rely_ok_bind (item : First) (next : First → Checking Second) :
    rely (.ok item) >>= next = next item :=
  rfl

@[simp] theorem require_ok_bind (item : First) (next : First → Checking Second) :
    require (.ok item) >>= next = next item :=
  rfl

end Checking

open Checking

/-- The columns that say what links say, with nothing measured yet. -/
def Links.table (links : Links) (count : Nat) : LinkTable where
  root := links.root
  left := links.children.map Prod.fst
  right := links.children.map Prod.snd
  heights := Array.replicate count 0

namespace LinkTable

/-! ## Naming -/

section Naming

variable
  {named : Array Bool}
  {claimed more : List Nat}
  {link : Option Nat}
  {count : Nat}
  {cause : DecodeError}

/-- The marks of a column are those of the records that were named. -/
def Marks (named : Array Bool) (claimed : List Nat) : Prop :=
  ∀ index < named.size, named[index]? = some (claimed.contains index)

/-- Marking another record marks one more claim. -/
theorem Marks.cons
    {index : Nat}
    (marks : Marks named claimed) :
    Marks (named.setIfInBounds index true) (index :: claimed) := by
  intro other inRange
  rw [Array.size_setIfInBounds] at inRange
  rw [Array.getElem?_setIfInBounds, List.contains_cons]
  by_cases same : index = other
  · subst same
    simp [inRange]
  · simp [same, Ne.symm same, marks other inRange]

/-- A link that may be claimed is named in the column, which then marks it. -/
theorem name_of_claim
    (marks : Marks named claimed)
    (inRange : ∀ index ∈ link, index < named.size)
    (free : Links.claim claimed link = .ok more) :
    ∃ result, name named link = require (.ok result) ∧ result.size = named.size ∧
      Marks result more := by
  cases link with
  | none =>
      cases free
      exact ⟨named, rfl, rfl, marks⟩
  | some index =>
      have here := inRange index rfl
      rw [Links.claim] at free
      split at free
      next =>
        contradiction
      next fresh =>
        cases free
        refine ⟨named.setIfInBounds index true, ?_, Array.size_setIfInBounds, marks.cons⟩
        rw [name, Column.read_eq (marks index here), rely_ok_bind, if_neg fresh,
          Column.write_eq here]
        rfl

/-- A link that may not be claimed is refused with the same words. -/
theorem name_of_claim_error
    (marks : Marks named claimed)
    (inRange : ∀ index ∈ link, index < named.size)
    (taken : Links.claim claimed link = .error cause) :
    name named link = require (.error cause) := by
  cases link with
  | none =>
      contradiction
  | some index =>
      rw [Links.claim] at taken
      split at taken
      next again =>
        cases taken
        rw [name, Column.read_eq (marks index (inRange index rfl)), rely_ok_bind, if_pos again]
        rfl
      next =>
        contradiction

/-- A word that names a record is in range. -/
theorem lt_of_index?
    {part : String}
    {word : UInt32}
    (named : Links.index? part count word = .ok link) :
    ∀ index ∈ link, index < count := by
  unfold Links.index? at named
  split at named
  next =>
    cases named
    simp
  next =>
    split at named
    next small =>
      cases named
      simpa using small
    next =>
      contradiction

/-- The columns are filled with the children of the records, or refused as these are. -/
theorem fill_eq
    (size_eq : named.size = count)
    (marks : Marks named claimed)
    (left right : Array (Option Nat))
    (records : List NodeRecord) :
    fill count named left right records =
      require ((Links.children? count claimed records).map fun children =>
        (left ++ (children.map Prod.fst).toArray, right ++ (children.map Prod.snd).toArray)) := by
  induction records generalizing named claimed left right with
  | nil =>
      simp only [fill, Links.children?, Except.map, List.map_nil, Array.append_empty]
      rfl
  | cons record rest inductionHypothesis =>
      rw [fill, Links.children?]
      cases leftNamed : Links.index? "child" count record.left with
      | error cause =>
          rfl
      | ok leftChild =>
          cases rightNamed : Links.index? "child" count record.right with
          | error cause =>
              rfl
          | ok rightChild =>
              have leftInRange := size_eq ▸ lt_of_index? leftNamed
              have rightInRange := lt_of_index? rightNamed
              simp only [require_ok_bind, ok_bind]
              cases leftClaimed : Links.claim claimed leftChild with
              | error cause =>
                  rw [name_of_claim_error marks leftInRange leftClaimed]
                  rfl
              | ok claimedLeft =>
                  obtain ⟨namedLeft, named_eq, leftSize, leftMarks⟩ :=
                    name_of_claim marks leftInRange leftClaimed
                  rw [named_eq, require_ok_bind, ok_bind]
                  rw [← size_eq, ← leftSize] at rightInRange
                  cases rightClaimed : Links.claim claimedLeft rightChild with
                  | error cause =>
                      rw [name_of_claim_error leftMarks rightInRange rightClaimed]
                      rfl
                  | ok claimedBoth =>
                      obtain ⟨namedBoth, both_eq, bothSize, bothMarks⟩ :=
                        name_of_claim leftMarks rightInRange rightClaimed
                      rw [both_eq, require_ok_bind, ok_bind,
                        inductionHypothesis (by rw [bothSize, leftSize, size_eq]) bothMarks]
                      cases Links.children? count claimedBoth rest with
                      | error cause =>
                          rfl
                      | ok others =>
                          simp [Except.map, bind, Except.bind, pure, Except.pure]

/-- The columns of records are those of their links. -/
theorem ofRecords_eq (root : UInt32) (records : List NodeRecord) :
    ofRecords root records =
      require ((Links.ofRecords root records).map fun links => links.table records.length) := by
  rw [ofRecords, Links.ofRecords]
  cases rootNamed : Links.index? "root" records.length root with
  | error cause =>
      rfl
  | ok link =>
      cases link with
      | none =>
          rfl
      | some index =>
          have inRange : index < (Array.replicate records.length false).size := by
            simpa using lt_of_index? rootNamed index rfl
          have marks : Marks (Array.replicate records.length false) [] := by
            intro other small
            rw [Array.getElem?_eq_getElem small, Array.getElem_replicate]
            rfl
          simp only [require_ok_bind, ok_bind, Column.write_eq inRange, rely_ok_bind]
          rw [fill_eq (by simp) marks.cons]
          cases Links.children? records.length [index] records with
          | error cause =>
              rfl
          | ok children =>
              simp [Except.map, bind, Except.bind, pure, Except.pure, Links.table,
                ExceptT.pure, ExceptT.mk, require, ExceptT.bind, ExceptT.bindCont]

end Naming

end LinkTable

/-! ## Walking -/

/-- The records that a walk meets, the last one first. -/
def LinkTree.visits : LinkTree → List Nat
  | .empty => []
  | .node left index right => right.visits ++ (left.visits ++ [index])

/-- A walk in the order of visits goes through every record once. -/
theorem LinkTree.visits_perm (tree : LinkTree) : tree.visits.Perm tree.toList := by
  induction tree with
  | empty =>
      exact .refl _
  | node left index right leftHypothesis rightHypothesis =>
      refine (rightHypothesis.append (leftHypothesis.append_right [index])).trans ?_
      refine List.perm_append_comm.trans ?_
      rw [toList, List.append_assoc]
      rfl

namespace Links

variable
  {links : Links}
  {link : Option Nat}
  {tree : LinkTree}
  {stack visited : List Nat}
  {left right : Option Nat}
  {count expected index fuel : Nat}

/-- Two walks in a row are in order if each is, the second from where the first ends. -/
theorem misplaced?_append (expected : Nat) (first last : List Nat) :
    misplaced? expected (first ++ last) =
      (misplaced? expected first).or (misplaced? (expected + first.length) last) := by
  induction first generalizing expected with
  | nil =>
      rfl
  | cons index rest inductionHypothesis =>
      rw [List.cons_append, misplaced?, misplaced?, inductionHypothesis, List.length_cons]
      split
      · rw [Nat.add_right_comm, Nat.add_assoc]
      · rfl

/-- The column of left children has the left child of a record. -/
theorem read_left (found : links.children[index]? = some (left, right)) :
    Column.read (links.table count).left index = .ok left :=
  Column.read_eq (by rw [table, Array.getElem?_map, found]; rfl)

/-- The column of right children has the right child of a record. -/
theorem read_right (found : links.children[index]? = some (left, right)) :
    Column.read (links.table count).right index = .ok right :=
  Column.read_eq (by rw [table, Array.getElem?_map, found]; rfl)

/-- A walk along a tree that has its records in order gets behind it. -/
theorem walk_in_order
    (follows : links.Follows link tree)
    (ordered : misplaced? expected tree.toList = none)
    (small : expected + tree.toList.length < UInt64.size) :
    (links.table count).walk (2 * tree.toList.length + fuel) ⟨stack, visited, expected, link⟩ =
      (links.table count).walk fuel
        ⟨stack, tree.visits ++ visited, expected + tree.toList.length, none⟩ := by
  induction tree generalizing link stack visited expected fuel with
  | empty =>
      obtain rfl : link = none := follows
      simp [LinkTree.toList, LinkTree.visits]
  | node leftTree index rightTree leftHypothesis rightHypothesis =>
      obtain ⟨rfl, ⟨left, right⟩, found, leftFollows, rightFollows⟩ := follows
      rw [LinkTree.toList, List.length_append, List.length_cons] at small ⊢
      rw [LinkTree.toList, misplaced?_append, Option.or_eq_none_iff, misplaced?] at ordered
      obtain ⟨leftOrdered, hereOrdered⟩ := ordered
      split at hereOrdered
      next here =>
        -- One step goes down to the record and one passes it.
        have steps : 2 * (leftTree.toList.length + (rightTree.toList.length + 1)) + fuel =
            2 * leftTree.toList.length + (2 * rightTree.toList.length + fuel + 1) + 1 := by
          omega
        rw [steps, LinkTable.walk, read_left found, ok_bind,
          leftHypothesis leftFollows leftOrdered (by omega), LinkTable.walk,
          if_neg (not_not_intro here), if_neg (by omega), read_right found, ok_bind,
          rightHypothesis rightFollows hereOrdered (by omega)]
        simp only [LinkTree.visits, List.append_assoc, List.singleton_append]
        congr 2
        omega
      next =>
        contradiction

/-- A walk ends at a record out of order, and has met some of the records that it was to meet. -/
def EndsAt
    (result : Except TreeFault (LinkWalk × Option Nat))
    (index : Nat)
    (visits visited : List Nat) :
    Prop :=
  ∃ ended seen,
    result = .ok (ended, some index) ∧ ended.visited = seen ++ visited ∧ seen <:+ visits

/-- A walk that ends over some visited records ends over more of them. -/
theorem EndsAt.behind
    {result : Except TreeFault (LinkWalk × Option Nat)}
    {visits : List Nat}
    (front more : List Nat)
    (ends : EndsAt result index visits (front ++ visited)) :
    EndsAt result index (more ++ (visits ++ front)) visited := by
  obtain ⟨ended, seen, ended_eq, visited_eq, within⟩ := ends
  refine ⟨ended, seen ++ front, ended_eq, by rw [visited_eq, List.append_assoc], ?_⟩
  exact (List.suffix_append_self_iff.mpr within).trans (List.suffix_append _ _)

/-- A walk along a tree that has a record out of order ends there. -/
theorem walk_misplaced
    (follows : links.Follows link tree)
    (misplaced : misplaced? expected tree.toList = some index)
    (small : expected + tree.toList.length < UInt64.size) :
    EndsAt
      ((links.table count).walk (2 * tree.toList.length + fuel) ⟨stack, visited, expected, link⟩)
      index tree.visits visited := by
  induction tree generalizing link stack visited expected fuel with
  | empty =>
      contradiction
  | node leftTree here rightTree leftHypothesis rightHypothesis =>
      obtain ⟨rfl, ⟨left, right⟩, found, leftFollows, rightFollows⟩ := follows
      rw [LinkTree.toList, List.length_append, List.length_cons] at small ⊢
      rw [LinkTree.toList, misplaced?_append, misplaced?] at misplaced
      have steps : 2 * (leftTree.toList.length + (rightTree.toList.length + 1)) + fuel =
          2 * leftTree.toList.length + (2 * rightTree.toList.length + fuel + 1) + 1 := by
        omega
      rw [steps, LinkTable.walk, read_left found, ok_bind]
      cases leftMisplaced : misplaced? expected leftTree.toList with
      | some other =>
          rw [leftMisplaced] at misplaced
          cases misplaced
          exact .behind [here] rightTree.visits
            (leftHypothesis leftFollows leftMisplaced (by omega))
      | none =>
          rw [leftMisplaced, Option.none_or] at misplaced
          rw [walk_in_order leftFollows leftMisplaced (by omega), LinkTable.walk,
            List.append_cons]
          split at misplaced
          next inPlace =>
            rw [if_neg (not_not_intro inPlace), if_neg (by omega), read_right found, ok_bind]
            exact .behind (leftTree.visits ++ [here]) []
              (rightHypothesis rightFollows misplaced (by omega))
          next notInPlace =>
            cases misplaced
            rw [if_pos notInPlace]
            exact .behind (leftTree.visits ++ [index]) rightTree.visits
              ⟨_, [], rfl, rfl, List.suffix_rfl⟩

end Links

/-! ## Measuring -/

/-- The heights of the records of a tree, stored in the order in which they are measured. -/
def LinkTree.store : LinkTree → Array Nat → Array Nat
  | .empty, heights => heights
  | .node left index right, heights =>
      (left.store (right.store heights)).setIfInBounds index (node left index right).height

namespace LinkTree

variable
  {tree other : LinkTree}
  {links : Links}
  {link : Option Nat}
  {heights : Array Nat}
  {records : List NodeRecord}
  {index : Nat}

@[simp] theorem size_store : (tree.store heights).size = heights.size := by
  induction tree generalizing heights with
  | empty =>
      rfl
  | node left index right leftHypothesis rightHypothesis =>
      rw [store, Array.size_setIfInBounds, leftHypothesis, rightHypothesis]

/-- Nothing is stored for records of other trees. -/
theorem getElem?_store_of_not_mem (stranger : index ∉ tree.toList) :
    (tree.store heights)[index]? = heights[index]? := by
  induction tree generalizing heights with
  | empty =>
      rfl
  | node left here right leftHypothesis rightHypothesis =>
      simp only [toList, List.mem_append, List.mem_cons, not_or] at stranger
      obtain ⟨notLeft, notHere, notRight⟩ := stranger
      rw [store, Array.getElem?_setIfInBounds_ne (Ne.symm notHere), leftHypothesis notLeft,
        rightHypothesis notRight]

/-- Heights that are stored for records apart from a tree do not change the tree's. -/
theorem heightOf_store_of_apart
    (follows : links.Follows link tree)
    (apart : ∀ index ∈ tree.toList, index ∉ other.toList) :
    LinkTable.heightOf (other.store heights) link = LinkTable.heightOf heights link := by
  cases tree with
  | empty =>
      obtain rfl : link = none := follows
      rfl
  | node left index right =>
      obtain ⟨rfl, -⟩ := follows
      rw [LinkTable.heightOf, LinkTable.heightOf, Column.read, Column.read, size_store,
        getElem?_store_of_not_mem (apart index (by simp [toList]))]

/-- The height that was stored for the topmost record is that of the tree. -/
theorem heightOf_store
    (follows : links.Follows link tree)
    (inRange : ∀ index ∈ tree.toList, index < heights.size) :
    LinkTable.heightOf (tree.store heights) link = .ok tree.height := by
  cases tree with
  | empty =>
      obtain rfl : link = none := follows
      rfl
  | node left index right =>
      obtain ⟨rfl, -⟩ := follows
      have here := inRange index (by simp [toList])
      refine Column.read_eq ?_
      rw [store, Array.getElem?_setIfInBounds_self, if_pos (by simpa using here)]

/-- Behind both sides of a record, the heights found at its children are those of the sides. -/
theorem heightOf_children
    {left right : Option Nat}
    {leftTree rightTree : LinkTree}
    (leftFollows : links.Follows left leftTree)
    (rightFollows : links.Follows right rightTree)
    (apart : ∀ index ∈ rightTree.toList, index ∉ leftTree.toList)
    (leftInRange : ∀ index ∈ leftTree.toList, index < heights.size)
    (rightInRange : ∀ index ∈ rightTree.toList, index < heights.size) :
    LinkTable.heightOf (leftTree.store (rightTree.store heights)) left = .ok leftTree.height ∧
      LinkTable.heightOf (leftTree.store (rightTree.store heights)) right =
        .ok rightTree.height := by
  constructor
  · refine heightOf_store leftFollows ?_
    rwa [size_store]
  · rw [heightOf_store_of_apart rightFollows apart]
    exact heightOf_store rightFollows rightInRange

/-- What was stored for a record is the height of the subtree that it is the topmost one of. -/
theorem Spans.height_store
    {word : UInt32}
    (spans : tree.Spans records word)
    (distinct : tree.toList.Nodup)
    (inRange : ∀ index ∈ tree.toList, index < heights.size)
    (member : index ∈ tree.toList) :
    ∃ subtree : LinkTree,
      subtree.Spans records (UInt32.ofNat index) ∧
        (tree.store heights)[index]? = some subtree.height := by
  induction tree generalizing word heights with
  | empty =>
      contradiction
  | node left here right leftHypothesis rightHypothesis =>
      have whole := spans
      obtain ⟨word_eq, record, -, leftSpans, rightSpans, -⟩ := spans
      simp only [toList, List.mem_append, List.mem_cons] at inRange member
      rw [toList, List.nodup_append] at distinct
      obtain ⟨leftDistinct, rightDistinct, apart⟩ := distinct
      obtain ⟨hereRight, othersDistinct⟩ := List.nodup_cons.mp rightDistinct
      rcases member with isLeft | rfl | isRight
      · have notHere : here ≠ index := Ne.symm (apart index isLeft here (List.mem_cons_self ..))
        rw [store, Array.getElem?_setIfInBounds_ne notHere]
        refine leftHypothesis leftSpans leftDistinct (fun other inLeft => ?_) isLeft
        rw [size_store]
        exact inRange other (.inl inLeft)
      · refine ⟨_, by rwa [← word_eq, UInt32.ofNat_toNat], ?_⟩
        rw [store, Array.getElem?_setIfInBounds_self, size_store, size_store,
          if_pos (inRange index (.inr (.inl rfl)))]
      · have notHere : here ≠ index := fun same => hereRight (same ▸ isRight)
        rw [store, Array.getElem?_setIfInBounds_ne notHere, getElem?_store_of_not_mem fun isLeft =>
          apart index isLeft index (List.mem_cons_of_mem _ isRight) rfl]
        exact rightHypothesis rightSpans othersDistinct
          (fun other inRight => inRange other (.inr (.inr inRight))) isRight

end LinkTree

namespace Links

variable
  {links : Links}
  {link : Option Nat}
  {tree : LinkTree}
  {records : List NodeRecord}
  {heights : Array Nat}
  {count : Nat}

/-- One step of measuring, behind which the height of one more record is stored. -/
theorem measure_cons
    {left right : Option Nat}
    {index leftHeight rightHeight : Nat}
    (found : links.children[index]? = some (left, right))
    (here : index < records.length)
    (size_eq : heights.size = records.length)
    (leftFound : LinkTable.heightOf heights left = .ok leftHeight)
    (rightFound : LinkTable.heightOf heights right = .ok rightHeight)
    (leftLow : leftHeight ≤ 125)
    (rightLow : rightHeight ≤ 125)
    (rest : List Nat) :
    (links.table count).measure records.toArray heights (index :: rest) =
      let stored := records[index].balance.toInt
      let difference : Int := (leftHeight : Int) - rightHeight
      if stored = difference ∧ difference.natAbs ≤ 1 then
        (links.table count).measure records.toArray
          (heights.setIfInBounds index (1 + max leftHeight rightHeight)) rest
      else
        require (.error (.malformed
          s!"node {index} has balance {stored} but its subtrees differ by {difference}")) := by
  have read : Column.read records.toArray index = .ok records[index] :=
    Column.read_eq (by simp [here])
  have above : HeightArithmetic.bytes.above leftHeight rightHeight = .ok _ :=
    HeightArithmetic.exact_bytes.above_eq (by omega) (by omega)
  simp only [LinkTable.measure, read_left found, read_right found, ok_bind, leftFound, rightFound,
    rely_ok_bind, read, above, Column.write_eq (size_eq ▸ here)]
  rfl

/-- Measuring the records of a tree finds what the check of balances finds, and stores it. -/
theorem measure_eq
    (follows : links.Follows link tree)
    (inRange : ∀ index ∈ tree.toList, index < records.length)
    (distinct : tree.toList.Nodup)
    (size_eq : heights.size = records.length)
    (small : tree.toList.length < UInt64.size)
    (rest : List Nat) :
    (links.table count).measure records.toArray heights (tree.visits ++ rest) =
      match tree.checkBalance (records.map fun record => record.balance.toInt).toArray with
      | .error cause => require (.error cause)
      | .ok _ => (links.table count).measure records.toArray (tree.store heights) rest := by
  induction tree generalizing link heights rest with
  | empty =>
      rfl
  | node leftTree index rightTree leftHypothesis rightHypothesis =>
      obtain ⟨rfl, ⟨left, right⟩, found, leftFollows, rightFollows⟩ := follows
      rw [LinkTree.toList, List.length_append, List.length_cons] at small
      simp only [LinkTree.toList, List.mem_append, List.mem_cons] at inRange
      rw [LinkTree.toList, List.nodup_append] at distinct
      obtain ⟨leftDistinct, rightDistinct, apart⟩ := distinct
      rw [LinkTree.visits, List.append_assoc, List.append_assoc, LinkTree.checkBalance,
        rightHypothesis rightFollows (fun other member => inRange other (.inr (.inr member)))
          (List.nodup_cons.mp rightDistinct).2 size_eq (by omega)]
      cases rightChecked : rightTree.checkBalance _ with
      | error cause =>
          rfl
      | ok rightHeight =>
          dsimp only
          rw [leftHypothesis leftFollows (fun other member => inRange other (.inl member))
            leftDistinct (by rw [LinkTree.size_store, size_eq]) (by omega)]
          cases leftChecked : leftTree.checkBalance _ with
          | error cause =>
              rfl
          | ok leftHeight =>
              have here := inRange index (.inr (.inl rfl))
              have stored :
                  (records.map fun record => record.balance.toInt).toArray[index]?.getD 0 =
                    records[index].balance.toInt := by
                simp [here]
              obtain ⟨leftFound, rightFound⟩ :=
                LinkTree.heightOf_children leftFollows rightFollows
                  (fun other isRight isLeft =>
                    apart other isLeft other (List.mem_cons_of_mem _ isRight) rfl)
                  (fun other isLeft => size_eq ▸ inRange other (.inl isLeft))
                  fun other isRight => size_eq ▸ inRange other (.inr (.inr isRight))
              rw [LinkTree.height_of_checkBalance leftChecked] at leftFound
              rw [LinkTree.height_of_checkBalance rightChecked] at rightFound
              have leftLow :=
                Shape.low_of_fib_le (LinkTree.fib_le_of_checkBalance leftChecked) (by omega)
              have rightLow :=
                Shape.low_of_fib_le (LinkTree.fib_le_of_checkBalance rightChecked) (by omega)
              dsimp only [List.singleton_append, ok_bind]
              rw [measure_cons found here (by simpa using size_eq) leftFound rightFound leftLow
                  rightLow rest,
                stored, LinkTree.store, LinkTree.height,
                LinkTree.height_of_checkBalance leftChecked,
                LinkTree.height_of_checkBalance rightChecked]
              dsimp only
              split <;> rfl

/-- Measuring all records of a tree checks its balances and stores its heights. -/
theorem measure_visits
    (follows : links.Follows link tree)
    (inRange : ∀ index ∈ tree.toList, index < records.length)
    (distinct : tree.toList.Nodup)
    (size_eq : heights.size = records.length)
    (small : tree.toList.length < UInt64.size) :
    (links.table count).measure records.toArray heights tree.visits =
      require
        ((tree.checkBalance (records.map fun record => record.balance.toInt).toArray).map
          fun _ => tree.store heights) := by
  rw [← List.append_nil tree.visits, measure_eq follows inRange distinct size_eq small]
  cases tree.checkBalance _ <;> rfl

/-! ## Checking -/

/-- The check of columns finds what the check of links finds, and meets no record twice. -/
theorem checkShape_table
    {fuel : Nat}
    (once : links.NamesOnce)
    (size_eq : links.children.size = records.length)
    (small : records.length < UInt64.size)
    (enough : 2 * records.length < fuel) :
    ∃ visited,
      (links.table records.length).checkShape fuel records =
          .ok (visited, (links.checkShape records).map fun tree =>
            { links.table records.length with
              heights := tree.store (Array.replicate records.length 0) }) ∧
        visited <:+ links.toTree.visits := by
  obtain ⟨follows, distinct⟩ := once.follows_toTree
  have inRange : ∀ index ∈ links.toTree.toList, index < records.length := fun index member =>
    size_eq ▸ lt_of_mem_grow member
  have notMore : links.toTree.toList.length ≤ records.length := by
    have within : links.toTree.toList ⊆ List.range records.length := fun index member =>
      List.mem_range.mpr (inRange index member)
    simpa using (List.subperm_of_subset distinct within).length_le
  obtain ⟨spare, rfl⟩ : ∃ spare, fuel = 2 * links.toTree.toList.length + (spare + 1) :=
    ⟨fuel - 2 * links.toTree.toList.length - 1, by omega⟩
  rw [LinkTable.checkShape, checkShape]
  dsimp only
  cases misplaced : misplaced? 0 links.toTree.toList with
  | some index =>
      obtain ⟨ended, seen, ended_eq, visited_eq, within⟩ :=
        walk_misplaced follows misplaced (by omega)
      rw [List.append_nil] at visited_eq
      refine ⟨ended.visited, ?_, visited_eq ▸ within⟩
      rw [table] at ended_eq ⊢
      rw [ended_eq]
      rfl
  | none =>
      refine ⟨links.toTree.visits, ?_, List.suffix_rfl⟩
      have walked :
          (links.table records.length).walk (2 * links.toTree.toList.length + (spare + 1))
              ⟨[], [], 0, some links.root⟩ =
            .ok (⟨[], links.toTree.visits, links.toTree.toList.length, none⟩, none) := by
        rw [walk_in_order follows misplaced (by omega), LinkTable.walk, List.append_nil,
          Nat.zero_add]
      rw [show (links.table records.length).root = links.root from rfl, walked, ok_bind]
      dsimp only
      by_cases complete : links.toTree.toList.length = records.length
      · have unmeasured : (links.table records.length).heights.size = records.length :=
          Array.size_replicate
        rw [if_pos complete, if_neg (not_not_intro complete),
          measure_visits follows inRange distinct unmeasured (by omega)]
        cases links.toTree.checkBalance _ <;> rfl
      · rw [if_neg complete, if_neg (by omega), if_pos complete]
        rfl

end Links

namespace LinkTable

variable {root : UInt32} {records : List NodeRecord} {fuel larger : Nat}

/-- The columns of accepted records, with the heights of all subtrees. -/
def accepted (root : UInt32) (records : List NodeRecord) : Except DecodeError LinkTable := do
  let links ← Links.ofRecords root records
  let tree ← links.checkShape records
  return { links.table records.length with
    heights := tree.store (Array.replicate records.length 0) }

/-- A walk that ends takes no further steps. -/
theorem walk_of_le
    {table : LinkTable}
    {state : LinkWalk}
    {result : LinkWalk × Option Nat}
    (ended : table.walk fuel state = .ok result)
    (atLeast : fuel ≤ larger) :
    table.walk larger state = .ok result := by
  induction fuel generalizing larger state with
  | zero =>
      contradiction
  | succ fuel inductionHypothesis =>
      obtain ⟨more, rfl⟩ : ∃ more, larger = more + 1 := ⟨larger - 1, by omega⟩
      have later : fuel ≤ more := Nat.le_of_succ_le_succ atLeast
      obtain ⟨stack, visited, expected, cursor⟩ := state
      cases cursor with
      | some index =>
          rw [walk, bind_eq_ok_iff] at ended ⊢
          obtain ⟨left, found, ended⟩ := ended
          exact ⟨left, found, inductionHypothesis ended later⟩
      | none =>
          cases stack with
          | nil =>
              exact ended
          | cons index stack =>
              rw [walk] at ended ⊢
              split at ended
              next misplaced =>
                rw [if_pos misplaced]
                exact ended
              next inPlace =>
                rw [if_neg inPlace]
                split at ended
                next =>
                  contradiction
                next small =>
                  rw [if_neg small]
                  obtain ⟨right, found, ended⟩ := bind_eq_ok_iff.mp ended
                  exact bind_eq_ok_iff.mpr ⟨right, found, inductionHypothesis ended later⟩

/-- A check that ends within some steps ends alike within more. -/
theorem check_of_le
    {result : List Nat × Except DecodeError LinkTable}
    (checked : check fuel root records = .ok result)
    (atLeast : fuel ≤ larger) :
    check larger root records = .ok result := by
  rw [check, bind_eq_ok_iff] at checked ⊢
  obtain ⟨named, named_eq, checked⟩ := checked
  refine ⟨named, named_eq, ?_⟩
  cases named with
  | error cause =>
      exact checked
  | ok table =>
      obtain ⟨ended, ended_eq, checked⟩ := bind_eq_ok_iff.mp checked
      exact bind_eq_ok_iff.mpr ⟨ended, walk_of_le ended_eq atLeast, checked⟩

/-- The check meets no fault and no record twice, and accepts what the check of links accepts. -/
theorem check_eq
    (root : UInt32)
    (bounded : records.length ≤ noNode.toNat) :
    ∃ visited,
      check (2 * records.length + 1) root records = .ok (visited, accepted root records) ∧
        visited.Nodup ∧ ∀ index ∈ visited, index < records.length := by
  rw [check, ofRecords_eq, accepted]
  cases named : Links.ofRecords root records with
  | error cause =>
      exact ⟨[], rfl, List.nodup_nil, by simp⟩
  | ok links =>
      obtain ⟨size_eq, once⟩ := Links.namesOnce_of_ofRecords bounded named
      have small : records.length < UInt64.size := Nat.lt_of_le_of_lt bounded (by decide)
      obtain ⟨visited, checked, within⟩ :=
        Links.checkShape_table once size_eq small (Nat.lt_succ_self _)
      have distinct := once.follows_toTree.2
      refine ⟨visited, ?_, ?_, ?_⟩
      · refine checked.trans ?_
        rw [ok_bind]
        cases links.checkShape records <;> rfl
      · exact ((links.toTree.visits_perm.nodup_iff).mpr distinct).sublist within.sublist
      · intro index member
        have isNode := links.toTree.visits_perm.mem_iff.mp (within.subset member)
        exact size_eq ▸ Links.lt_of_mem_grow isNode

/-- Records are accepted if their links and their shape are. -/
theorem accepted_eq_ok_iff {table : LinkTable} :
    accepted root records = .ok table ↔
      ∃ links tree,
        Links.ofRecords root records = .ok links ∧ links.checkShape records = .ok tree ∧
          { links.table records.length with
            heights := tree.store (Array.replicate records.length 0) } = table := by
  simp only [accepted, bind_eq_ok_iff, pure, Except.pure, Except.ok.injEq]
  constructor
  · rintro ⟨links, named, tree, checked, same⟩
    exact ⟨links, tree, named, checked, same⟩
  · rintro ⟨links, tree, named, checked, same⟩
    exact ⟨links, named, tree, checked, same⟩

/--
Whatever words and balances the records have, the check ends within two steps for
each record and one more, with the verdict of the check of links.  It meets no
fault and no record twice, accepts exactly the records that span a tree with all
of them in order, finds the heights of its subtrees, and refuses all others as
malformed.
-/
theorem check_exact
    (root : UInt32)
    {records : List NodeRecord}
    (nonempty : records ≠ [])
    (bounded : records.length ≤ noNode.toNat) :
    ∃ visited,
      (∀ fuel,
        2 * records.length < fuel →
        check fuel root records = .ok (visited, accepted root records)) ∧
        visited.Nodup ∧
        (∀ index ∈ visited, index < records.length) ∧
        ((∃ table, accepted root records = .ok table) ↔
          ∃ tree : LinkTree, tree.Spans records root ∧ tree.toList = List.range records.length) ∧
        (∀ table,
          accepted root records = .ok table →
          table.heights.size = records.length ∧
            ∀ index < records.length,
              ∃ subtree : LinkTree,
                subtree.Spans records (UInt32.ofNat index) ∧
                  table.heights[index]? = some subtree.height) ∧
        ∀ cause, accepted root records = .error cause → ∃ text, cause = .malformed text := by
  obtain ⟨visited, checked, distinct, inRange⟩ := check_eq root bounded
  refine ⟨visited, fun fuel enough => check_of_le checked enough, distinct, inRange, ?_, ?_, ?_⟩
  · simp only [← Links.accepted_iff nonempty bounded, accepted_eq_ok_iff]
    constructor
    · rintro ⟨table, links, tree, named, checked, -⟩
      exact ⟨tree, links, named, checked⟩
    · rintro ⟨tree, links, named, checked⟩
      exact ⟨_, links, tree, named, checked, rfl⟩
  · intro table verdict
    obtain ⟨links, tree, named, checked, rfl⟩ := accepted_eq_ok_iff.mp verdict
    obtain ⟨spans, counts⟩ := (Links.accepted_iff nonempty bounded).mp ⟨links, named, checked⟩
    refine ⟨by simp, fun index small => ?_⟩
    refine spans.height_store (counts ▸ List.nodup_range) (fun other member => ?_) ?_
    · simpa using spans.lt_of_mem member
    · rw [counts, List.mem_range]
      exact small
  · have refuses : Links.RefusesMalformed (accepted root records) :=
      .bind (Links.refusesMalformed_ofRecords root records) fun links =>
        .bind (Links.refusesMalformed_checkShape links records) fun tree => .ok _
    exact refuses

/--
A record with two children is accepted from above.  From the left one, where the
other two name each other, the check ends as well.
-/
theorem check_exact_three :
    let records : List NodeRecord :=
      [⟨noNode, noNode, 0, [], []⟩, ⟨0, 2, 0, [], []⟩, ⟨noNode, noNode, 0, [], []⟩]
    let circular : List NodeRecord :=
      [⟨noNode, noNode, 0, [], []⟩, ⟨noNode, 2, 0, [], []⟩, ⟨1, noNode, 0, [], []⟩]
    records ≠ [] ∧
      records.length ≤ noNode.toNat ∧
      check 7 1 records =
        .ok ([2, 0, 1], .ok ⟨1, #[none, some 0, none], #[none, some 2, none], #[1, 2, 1]⟩) ∧
      (∃ tree : LinkTree, tree.Spans records 1 ∧ tree.toList = List.range records.length) ∧
      check 7 0 circular =
        .ok ([0], .error (.malformed "2 nodes are unreachable from the root")) ∧
      ¬ ∃ tree : LinkTree, tree.Spans circular 0 ∧ tree.toList = List.range circular.length := by
  intro records circular
  have fits : records.length ≤ noNode.toNat := by
    decide
  have isChecked : check 7 1 records =
      .ok ([2, 0, 1], .ok ⟨1, #[none, some 0, none], #[none, some 2, none], #[1, 2, 1]⟩) := by
    decide +kernel
  have isRefused : check 7 0 circular =
      .ok ([0], .error (.malformed "2 nodes are unreachable from the root")) := by
    decide +kernel
  have someRecords : records ≠ [] := List.cons_ne_nil _ _
  have someCircular : circular ≠ [] := List.cons_ne_nil _ _
  obtain ⟨visited, checked, -, -, spans_iff, -⟩ := check_exact 1 someRecords fits
  obtain ⟨-, isTable⟩ := Prod.mk.inj (Except.ok.inj ((checked 7 (by decide)).symm.trans isChecked))
  obtain ⟨stopped, refused, -, -, circular_iff, -⟩ := check_exact 0 someCircular fits
  obtain ⟨-, isError⟩ :=
    Prod.mk.inj (Except.ok.inj ((refused 7 (by decide)).symm.trans isRefused))
  refine ⟨someRecords, fits, isChecked, spans_iff.mp ⟨_, isTable⟩, isRefused, ?_⟩
  rw [← circular_iff]
  rintro ⟨table, isTable⟩
  rw [isError] at isTable
  contradiction

end LinkTable

end OrderedIndex
