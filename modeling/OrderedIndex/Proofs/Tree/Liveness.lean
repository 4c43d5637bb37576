import OrderedIndex.Proofs.Tree.Lifetime
import OrderedIndex.Proofs.Tree.Walk

namespace OrderedIndex.OrderedTree

/-!
# Links to nodes in use

Every link of a node in use, every end of the chain and everything that a search
finds leads to a node in use, or nowhere.
-/

open TreeNode

variable
  {Key Value : Type}
  {tree : OrderedTree Key Value}
  {nodes below above : List (TreeNode Key Value)}
  {node : TreeNode Key Value}
  {id : NodeId}

/-- A link leads to a node in use, or nowhere. -/
def Leads (tree : OrderedTree Key Value) (link : Option NodeId) : Prop :=
  ∀ id, link = some id → (tree.entry? id).isSome

/-- A missing link leads nowhere, which is no fault. -/
theorem leads_none : tree.Leads none := by
  intro id absent
  contradiction

theorem leads_some (live : (tree.entry? id).isSome) : tree.Leads (some id) := by
  rintro _ ⟨⟩
  exact live

namespace Formed

/-- The nodes next to a place are in use. -/
theorem leads_beside
    (formed : tree.Formed (below ++ above)) :
    tree.Leads (lastOr none below) ∧ tree.Leads (firstOr none above) := by
  constructor
  · intro id isLast
    refine formed.entry?_isSome_iff.mpr ?_
    rw [List.map_append]
    exact List.mem_append_left _ (mem_of_lastOr_none isLast)
  · intro id isFirst
    refine formed.entry?_isSome_iff.mpr ?_
    rw [List.map_append]
    exact List.mem_append_right _ (mem_of_firstOr_none isFirst)

/-- The links of a node in use lead to other nodes. -/
theorem leads_around
    (formed : tree.Formed (below ++ node :: above)) :
    (tree.Leads (lastOr none below) ∧ lastOr none below ≠ some node.id) ∧
      tree.Leads (firstOr none above) ∧ firstOr none above ≠ some node.id := by
  have regrouped : below ++ node :: above = (below ++ [node]) ++ above := by
    simp
  obtain ⟨stranger, -⟩ := nodup_map_middle.mp formed.distinct
  rw [List.map_append, List.mem_append, not_or] at stranger
  exact ⟨⟨formed.leads_beside.1, fun isLast => stranger.1 (mem_of_lastOr_none isLast)⟩,
    (regrouped ▸ formed).leads_beside.2, fun isFirst => stranger.2 (mem_of_firstOr_none isFirst)⟩

/-- The links of an entry lead to nodes in use or nowhere. -/
theorem leads_of_entry?
    (formed : tree.Formed nodes)
    {entry : Entry Key Value}
    (found : tree.entry? id = some entry) :
    tree.Leads entry.previous ∧ tree.Leads entry.next := by
  have inUse : id ∈ nodes.map TreeNode.id := by
    rw [← formed.entry?_isSome_iff, found]
    rfl
  obtain ⟨node, member, rfl⟩ := List.mem_map.mp inUse
  obtain ⟨below, above, rfl⟩ := List.append_of_mem member
  rw [formed.entry?_eq rfl, Option.some.injEq] at found
  subst found
  exact ⟨formed.leads_around.1.1, formed.leads_around.2.1⟩

theorem leads_next? (formed : tree.Formed nodes) : tree.Leads (tree.next? id) := by
  unfold next?
  cases found : tree.entry? id with
  | none =>
      exact leads_none
  | some entry =>
      exact (formed.leads_of_entry? found).2

theorem leads_previous? (formed : tree.Formed nodes) : tree.Leads (tree.previous? id) := by
  unfold previous?
  cases found : tree.entry? id with
  | none =>
      exact leads_none
  | some entry =>
      exact (formed.leads_of_entry? found).1

theorem leads_first (formed : tree.Formed nodes) : tree.Leads tree.first := by
  have whole : nodes = [] ++ nodes := rfl
  rw [formed.first_eq]
  exact (whole ▸ formed).leads_beside.2

theorem leads_last (formed : tree.Formed nodes) : tree.Leads tree.last := by
  have whole : nodes = nodes ++ [] := (List.append_nil nodes).symm
  rw [formed.last_eq]
  exact (whole ▸ formed).leads_beside.1

/-- The neighbours of a key that is absent are in use. -/
theorem leads_of_absent
    (formed : tree.Formed nodes)
    {key : Key}
    {lower upper : Option NodeId}
    (located : tree.locate key = .absent lower upper) :
    tree.Leads lower ∧ tree.Leads upper := by
  rcases formed.landed key with
    ⟨_, _, _, _, _, other, _⟩ | ⟨below, above, rfl, _, _, other, _⟩
  · simp [other] at located
  · rw [located, Shape.Location.absent.injEq] at other
    obtain ⟨rfl, rfl⟩ := other
    exact formed.leads_beside

/-- The least key at or above a sought one leads to a node in use or nowhere. -/
theorem leads_findAtLeast? (formed : tree.Formed nodes) (key : Key) :
    tree.Leads (tree.findAtLeast? key) := by
  cases located : tree.locate key with
  | present id =>
      rw [findAtLeast?, located]
      exact leads_some (formed.isSome_of_find? (by rw [find?, located]))
  | absent below above =>
      rw [findAtLeast?, located]
      exact (formed.leads_of_absent located).2

/-- The least key above a sought one leads to a node in use or nowhere. -/
theorem leads_findAbove? (formed : tree.Formed nodes) (key : Key) :
    tree.Leads (tree.findAbove? key) := by
  cases located : tree.locate key with
  | present id =>
      rw [findAbove?, located]
      exact formed.leads_next?
  | absent below above =>
      rw [findAbove?, located]
      exact (formed.leads_of_absent located).2

end Formed

end OrderedIndex.OrderedTree
