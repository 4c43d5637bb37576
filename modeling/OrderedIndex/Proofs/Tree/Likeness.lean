import OrderedIndex.Proofs.Shape.Renaming
import OrderedIndex.Proofs.Tree.Requests

namespace OrderedIndex

/-!
# Trees alike

Two trees are alike if they hold the same pairs in the same shape, however
their slots are numbered and whichever of them are free.  Trees that are alike
reply alike to every request, stay alike and have the same bytes, so nothing
that a caller sees depends on the slots that a tree has used before.
-/

variable {Key Value : Type}

/-! ## Shapes alike -/

namespace Shape

variable {shape other : Shape Key} {probe : Key → Ordering}

/-- The same keys in the same shape: numbered by place, the two are equal. -/
def Alike (shape other : Shape Key) : Prop := shape.renumber 0 = other.renumber 0

@[simp] theorem size_rename {number : NodeId → NodeId} :
    (shape.rename number).size = shape.size := by
  induction shape with
  | empty =>
      rfl
  | node left id key height right leftHypothesis rightHypothesis =>
      simp [rename, size, leftHypothesis, rightHypothesis]

/-- The numbers that nodes had do not matter for those that they get by place. -/
theorem renumber_rename {number : NodeId → NodeId} {offset : Nat} :
    (shape.rename number).renumber offset = shape.renumber offset := by
  induction shape generalizing offset with
  | empty =>
      rfl
  | node left id key height right leftHypothesis rightHypothesis =>
      simp [rename, renumber, leftHypothesis, rightHypothesis]

theorem forget_renumber {offset : Nat} :
    (shape.renumber offset).rename (fun _ => 0) = shape.rename fun _ => 0 := by
  induction shape generalizing offset with
  | empty =>
      rfl
  | node left id key height right leftHypothesis rightHypothesis =>
      simp [rename, renumber, leftHypothesis, rightHypothesis]

/-- Shapes are alike if they are equal once the numbers are forgotten. -/
theorem alike_iff :
    shape.Alike other ↔ (shape.rename fun _ => 0) = other.rename fun _ => 0 := by
  constructor
  · intro same
    rw [← @forget_renumber _ shape 0, ← @forget_renumber _ other 0]
    exact congrArg (rename fun _ => 0) same
  · intro same
    have numbered := congrArg (renumber 0) same
    rwa [renumber_rename, renumber_rename] at numbered

theorem alike_renumber (shape : Shape Key) : shape.Alike (shape.renumber 0) :=
  alike_iff.mpr forget_renumber.symm

namespace Alike

theorem insert
    (alike : shape.Alike other)
    (id otherId : NodeId)
    (key : Key) :
    (shape.insert probe id key).Alike (other.insert probe otherId key) := by
  rw [alike_iff] at alike ⊢
  rw [rename_insert, rename_insert, alike]

theorem erase (alike : shape.Alike other) : (shape.erase probe).Alike (other.erase probe) := by
  rw [alike_iff] at alike ⊢
  rw [rename_erase, rename_erase, alike]

theorem links_eq (alike : shape.Alike other) : shape.links 0 = other.links 0 := by
  rw [← links_renumber 0 0 shape, ← links_renumber 0 0 other]
  exact congrArg (links 0) alike

theorem rootIndex?_eq (alike : shape.Alike other) :
    shape.rootIndex? 0 = other.rootIndex? 0 := by
  rw [← rootIndex?_renumber 0 0 shape, ← rootIndex?_renumber 0 0 other]
  exact congrArg (rootIndex? 0) alike

end Alike

end Shape

/-! ## Trees alike -/

namespace OrderedTree

variable {tree other : OrderedTree Key Value}

/-- The same pairs in the same shape, in slots of whatever numbers. -/
structure Alike (tree other : OrderedTree Key Value) : Prop where
  order_eq : tree.order = other.order
  shape_alike : tree.shape.Alike other.shape
  toList_eq : tree.toList = other.toList

theorem IsNumberedCopy.alike {copy : OrderedTree Key Value} (isCopy : tree.IsNumberedCopy copy) :
    tree.Alike copy where
  order_eq := isCopy.order_eq.symm
  shape_alike := by
    rw [isCopy.shape_eq]
    exact tree.shape.alike_renumber
  toList_eq := isCopy.toList_eq.symm

/-- An insertion is one of the shape, also where it changes nothing. -/
theorem shape_insert (tree : OrderedTree Key Value) (key : Key) (value : Value) :
    ∃ id, (tree.insert key value).2.shape = tree.shape.insert (tree.order key) id key := by
  unfold insert
  split
  next found located =>
    exact ⟨found, (Shape.insert_of_present located).symm⟩
  next =>
    exact ⟨_, rfl⟩

/-- A removal is one of the shape, also where it changes nothing. -/
theorem Represents.shape_remove
    [Std.TransCmp tree.order]
    {nodes : List (TreeNode Key Value)}
    (represents : tree.Represents nodes)
    (key : Key) :
    (tree.remove key).2.shape = tree.shape.erase (tree.order key) := by
  rcases represents.located key with
    ⟨below, above, node, rfl, _, _, _, located, _⟩ | ⟨below, above, rfl, _, _, located, _⟩
  · have found := represents.entry?_eq rfl
    simp only [OrderedTree.remove, find?, located, found]
  · simp only [OrderedTree.remove, find?, located]
    exact (Shape.erase_of_absent located).symm

theorem shape_set (tree : OrderedTree Key Value) (key : Key) (value : Value) :
    (tree.set key value).2.shape = tree.shape := by
  unfold set
  split <;> rfl

end OrderedTree

namespace TreeRequest

open OrderedTree

variable
  {tree other : OrderedTree Key Value}
  {nodes otherNodes : List (TreeNode Key Value)}

/-- A request makes the same of the shapes of trees that are alike. -/
theorem shape_alike_apply
    [Std.TransCmp tree.order]
    [Std.TransCmp other.order]
    (represents : tree.Represents nodes)
    (otherRepresents : other.Represents otherNodes)
    (alike : tree.Alike other)
    (request : TreeRequest Key Value) :
    (request.apply tree).2.shape.Alike (request.apply other).2.shape := by
  cases request with
  | make change =>
      cases change with
      | insert key value =>
          obtain ⟨id, inserted⟩ := tree.shape_insert key value
          obtain ⟨otherId, otherInserted⟩ := other.shape_insert key value
          show (tree.insert key value).2.shape.Alike (other.insert key value).2.shape
          rw [inserted, otherInserted, alike.order_eq]
          exact alike.shape_alike.insert id otherId key
      | remove key =>
          show (tree.remove key).2.shape.Alike (other.remove key).2.shape
          rw [represents.shape_remove, otherRepresents.shape_remove, alike.order_eq]
          exact alike.shape_alike.erase
      | clear =>
          exact rfl
      | set key value =>
          show (tree.set key value).2.shape.Alike (other.set key value).2.shape
          rw [shape_set, shape_set]
          exact alike.shape_alike
  | contains key =>
      exact alike.shape_alike
  | get key =>
      exact alike.shape_alike
  | find neighbour key =>
      exact alike.shape_alike

/-- Trees that are alike reply alike to a request, and stay alike. -/
theorem apply_alike
    [Std.TransCmp tree.order]
    [Std.TransCmp other.order]
    (represents : tree.Represents nodes)
    (otherRepresents : other.Represents otherNodes)
    (alike : tree.Alike other)
    (request : TreeRequest Key Value) :
    (request.apply tree).1 = (request.apply other).1 ∧
      (request.apply tree).2.Alike (request.apply other).2 := by
  obtain ⟨changed, result, served⟩ := apply_represents represents request
  obtain ⟨otherChanged, otherResult, otherServed⟩ := apply_represents otherRepresents request
  have same :
      ((request.apply tree).1, changed.map TreeNode.pair) =
        ((request.apply other).1, otherChanged.map TreeNode.pair) := by
    rw [served, otherServed, ← represents.toList_eq, ← otherRepresents.toList_eq,
      alike.order_eq, alike.toList_eq]
  obtain ⟨sameReply, samePairs⟩ := Prod.mk.inj same
  refine ⟨sameReply, ?_, ?_, ?_⟩
  · rw [order_apply, order_apply, alike.order_eq]
  · exact shape_alike_apply represents otherRepresents alike request
  · rw [result.toList_eq, otherResult.toList_eq, samePairs]

/-- Along a run of requests, trees that are alike give the same replies and stay alike. -/
theorem run_alike
    {order : Order Key}
    [Std.TransCmp order]
    (order_eq : tree.order = order)
    (represents : tree.Represents nodes)
    (otherRepresents : other.Represents otherNodes)
    (alike : tree.Alike other)
    (requests : List (TreeRequest Key Value)) :
    (run tree requests).1 = (run other requests).1 ∧
      (run tree requests).2.Alike (run other requests).2 ∧
        (∃ final, (run tree requests).2.Represents final) ∧
          ∃ final, (run other requests).2.Represents final := by
  induction requests generalizing tree other nodes otherNodes with
  | nil =>
      exact ⟨rfl, alike, ⟨nodes, represents⟩, ⟨otherNodes, otherRepresents⟩⟩
  | cons request rest inductionHypothesis =>
      subst order_eq
      have otherLawful : Std.TransCmp other.order := by
        rw [← alike.order_eq]
        infer_instance
      obtain ⟨changed, result, _⟩ := apply_represents represents request
      obtain ⟨otherChanged, otherResult, _⟩ := apply_represents otherRepresents request
      obtain ⟨reply, stays⟩ := apply_alike represents otherRepresents alike request
      obtain ⟨replies, finallyAlike⟩ :=
        inductionHypothesis (order_apply request) result otherResult stays
      exact ⟨congrArg₂ List.cons reply replies, finallyAlike⟩

end TreeRequest

/-! ## Bytes -/

namespace TreeFormat

variable {format : TreeFormat Key Value} {tree other : OrderedTree Key Value}

/-- The records of entries are told by their pairs; the neighbours of an entry are not stored. -/
theorem records_congr
    {links : List NodeLinks}
    {entries others : List (Entry Key Value)}
    (samePairs :
      (entries.map fun entry => (entry.key, entry.value)) =
        others.map fun entry => (entry.key, entry.value)) :
    format.records links entries = format.records links others := by
  induction links generalizing entries others with
  | nil =>
      rfl
  | cons first moreLinks inductionHypothesis =>
      cases entries with
      | nil =>
          cases others with
          | nil =>
              rfl
          | cons =>
              contradiction
      | cons entry moreEntries =>
          cases others with
          | nil =>
              contradiction
          | cons otherEntry moreOthers =>
              obtain ⟨samePair, moreSame⟩ := List.cons.inj samePairs
              obtain ⟨sameKey, sameValue⟩ := Prod.mk.inj samePair
              rw [records, records, record, record, sameKey, sameValue,
                inductionHypothesis moreSame]

/-- Trees that are alike have the same bytes, or cannot be encoded for the same reason. -/
theorem encode_eq_of_alike
    (valid : tree.Valid)
    (otherValid : other.Valid)
    (alike : tree.Alike other) :
    format.encode tree = format.encode other := by
  have size_eq : tree.size = other.size := by
    rw [← valid.length_toList, ← otherValid.length_toList, alike.toList_eq]
  have records_eq := @records_congr _ _ format (other.shape.links 0) _ _ alike.toList_eq
  rw [encode, encode, size_eq, alike.shape_alike.links_eq, alike.shape_alike.rootIndex?_eq,
    records_eq]

end TreeFormat

/-! ## A tree and its reloaded copy -/

namespace TreeRequest

/--
Whatever changes a tree went through, the tree that its bytes decode to gives
the same replies to all requests that follow.  The two stay alike and, with
whatever codecs, have the same bytes, although their slots are numbered apart.
-/
theorem run_reloaded_alike
    (order : Order Key)
    [lawful : Std.TransCmp order]
    (steps : List (TreeStep Key Value))
    (keys : Codec Key)
    (values : Codec Value)
    (roundTrips :
      ∀ pair ∈ (TreeStep.run (.empty order) steps).toList,
        keys.RoundTripsAt pair.1 ∧ values.RoundTripsAt pair.2)
    (bytes : Bytes)
    (encoded :
      (⟨order, keys, values⟩ : TreeFormat Key Value).encode
          (TreeStep.run (.empty order) steps) =
        .ok bytes) :
    ∃ copy,
      (⟨order, keys, values⟩ : TreeFormat Key Value).decode bytes = .ok copy ∧
        ∀ requests,
          (run (TreeStep.run (.empty order) steps) requests).1 = (run copy requests).1 ∧
            (run (TreeStep.run (.empty order) steps) requests).2.Alike
                (run copy requests).2 ∧
              ∀ format : TreeFormat Key Value,
                format.encode (run (TreeStep.run (.empty order) steps) requests).2 =
                  format.encode (run copy requests).2 := by
  have startOrder : (OrderedTree.empty order : OrderedTree Key Value).order = order := rfl
  obtain ⟨order_eq, nodes, represents⟩ :=
    TreeStep.run_represents startOrder (OrderedTree.represents_empty order) steps
  have formatLawful : Std.TransCmp (⟨order, keys, values⟩ : TreeFormat Key Value).order := lawful
  obtain ⟨copy, decoded, isCopy, -⟩ := represents.round_trips order_eq roundTrips encoded
  obtain ⟨-, copyNodes, copyRepresents⟩ := TreeFormat.decode_represents decoded
  refine ⟨copy, decoded, ?_⟩
  intro requests
  obtain ⟨replies, alike, ⟨final, finalRepresents⟩, otherFinal, otherRepresents⟩ :=
    run_alike order_eq represents copyRepresents isCopy.alike requests
  exact ⟨replies, alike, fun format =>
    TreeFormat.encode_eq_of_alike finalRepresents.valid otherRepresents.valid alike⟩

/-- In the order of halves `5` takes the slot that `4` left, but the third slot of the copy. -/
theorem run_reloaded_alike_halves :
    ∃ copy,
      (⟨Order.byRank fun number : UInt64 => number.toNat / 2, .uint64, .unit⟩ :
            TreeFormat UInt64 Unit).decode
          (TreeFormat.bytesUnder 0
            [⟨noNode, 1, -1, Bytes.ofUInt64 8, []⟩,
              ⟨noNode, noNode, 0, Bytes.ofUInt64 12, []⟩]) =
          .ok copy ∧
        (run copy [.make (.insert 5 ()), .find .below 9, .make (.remove 13)]).1 =
          [.changed (.told true), .found (some (5, ())), .changed (.given (some ()))] := by
  obtain ⟨copy, decoded, alike⟩ :=
    run_reloaded_alike (Order.byRank fun number : UInt64 => number.toNat / 2)
      [.byKey (.insert 8 ()), .byKey (.insert 4 ()), .byKey (.insert 12 ()), .byKey (.remove 5)]
      .uint64 .unit
      (fun pair _ => ⟨Codec.exact_uint64.roundTrips pair.1, Codec.exact_unit.roundTrips pair.2⟩)
      (TreeFormat.bytesUnder 0
        [⟨noNode, 1, -1, Bytes.ofUInt64 8, []⟩, ⟨noNode, noNode, 0, Bytes.ofUInt64 12, []⟩])
      rfl
  have replies := (alike [.make (.insert 5 ()), .find .below 9, .make (.remove 13)]).1
  exact ⟨copy, decoded, replies.symm⟩

end TreeRequest

end OrderedIndex
