import Mathlib.Data.List.Flatten
import OrderedIndex.Proofs.Tree.Links

namespace OrderedIndex.Links

/-!
# Records with one parent

Where every record is named once at most and the topmost one by none, the links
from the topmost record on make a tree, whatever else there is.  What they grow
at one more level is what the levels above name, so no record grows twice; and a
growth that was cut short had a record on every level, which is one too many.
-/

/-- No record is named twice, the topmost one included, and none that is not there. -/
structure NamesOnce (links : Links) : Prop where
  small : ∀ index ∈ links.root :: named links.children.toList, index < links.children.size
  distinct : (links.root :: named links.children.toList).Nodup

variable {links : Links} {link : Option Nat} {depth : Nat}

theorem namesOnce_of_ofRecords
    {root : UInt32}
    {records : List NodeRecord}
    (bounded : records.length ≤ noNode.toNat)
    (accepted : ofRecords root records = .ok links) :
    links.children.size = records.length ∧ links.NamesOnce := by
  obtain ⟨-, children, children_eq, words, small, distinct⟩ :=
    (ofRecords_eq_ok_iff bounded).mp accepted
  have size_eq : links.children.size = records.length := by
    rw [children_eq, List.size_toArray, words.length_eq]
  rw [← size_eq] at small
  exact ⟨size_eq, by rwa [children_eq] at small ⊢, by rwa [children_eq]⟩

/-- What grows is in the tables. -/
theorem lt_of_mem_grow
    {index : Nat}
    (member : index ∈ (links.grow depth link).toList) :
    index < links.children.size := by
  induction depth generalizing link with
  | zero =>
      cases link <;> contradiction
  | succ depth inductionHypothesis =>
      cases link with
      | none =>
          contradiction
      | some top =>
          cases found : links.children[top]? with
          | none =>
              simp [grow, found, LinkTree.toList] at member
          | some children =>
              obtain ⟨left, right⟩ := children
              simp only [grow, found, LinkTree.toList, List.mem_append, List.mem_cons] at member
              rcases member with isLeft | rfl | isRight
              · exact inductionHypothesis isLeft
              · exact (Array.getElem?_eq_some_iff.mp found).1
              · exact inductionHypothesis isRight

/-- All rows of the table, each at its place. -/
theorem filterMap_range_children (links : Links) :
    (List.range links.children.size).filterMap (links.children[·]?) = links.children.toList := by
  rw [List.range_eq_range', ← Array.length_toList]
  exact filterMap_range'_children (Array.toArray_toList).symm

/-- What distinct records name is part of what all records name. -/
theorem named_subperm
    {indices : List Nat}
    (distinct : indices.Nodup)
    (inRange : ∀ index ∈ indices, index < links.children.size) :
    List.Subperm (links.root :: named (indices.filterMap (links.children[·]?)))
      (links.root :: named links.children.toList) := by
  have within : indices ⊆ List.range links.children.size := fun index member =>
    List.mem_range.mpr (inRange index member)
  obtain ⟨picked, perm, sublist⟩ := List.subperm_of_subset distinct within
  have picks : (named (picked.filterMap (links.children[·]?))).Sublist
      (named links.children.toList) := by
    rw [← filterMap_range_children]
    exact (sublist.filterMap _).flatMap _
  exact ⟨_, ((perm.filterMap _).flatMap_right _).cons links.root, picks.cons_cons links.root⟩

namespace NamesOnce

variable (once : links.NamesOnce)
include once

theorem exists_children {index : Nat} (inRange : index < links.children.size) :
    ∃ left right,
      links.children[index]? = some (left, right) ∧
        (∀ child ∈ left, child < links.children.size) ∧
          ∀ child ∈ right, child < links.children.size := by
  have member := Array.getElem_mem_toList inRange
  refine ⟨_, _, Array.getElem?_eq_getElem inRange, ?_, ?_⟩
  · intro child isLeft
    refine once.small child (List.mem_cons_of_mem _ (List.mem_flatMap.mpr ⟨_, member, ?_⟩))
    exact List.mem_append_left _ (Option.mem_toList.mpr isLeft)
  · intro child isRight
    refine once.small child (List.mem_cons_of_mem _ (List.mem_flatMap.mpr ⟨_, member, ?_⟩))
    exact List.mem_append_right _ (Option.mem_toList.mpr isRight)

/-- One more level grows what the levels above name. -/
theorem grow_perm
    (depth : Nat)
    (inRange : ∀ index ∈ link, index < links.children.size) :
    (links.grow (depth + 1) link).toList.Perm
      (link.toList ++ named ((links.grow depth link).toList.filterMap (links.children[·]?))) := by
  induction depth generalizing link with
  | zero =>
      cases link with
      | none =>
          exact .refl _
      | some index =>
          obtain ⟨left, right, found, -⟩ := once.exists_children (inRange index rfl)
          simp [grow, found, LinkTree.toList, named]
  | succ depth inductionHypothesis =>
      cases link with
      | none =>
          exact .refl _
      | some index =>
          obtain ⟨left, right, found, leftInRange, rightInRange⟩ :=
            once.exists_children (inRange index rfl)
          have ofLeft := inductionHypothesis leftInRange
          have ofRight := inductionHypothesis rightInRange
          rw [grow, found, grow, found]
          simp only [LinkTree.toList, named, List.filterMap_append, List.filterMap_cons, found,
            List.flatMap_append, List.flatMap_cons, Option.toList_some, List.singleton_append]
          refine List.perm_middle.trans (.cons _ ((ofLeft.append ofRight).trans ?_))
          simp only [named, ← List.append_assoc]
          exact (List.perm_append_comm.append_right _).append_right _

/-- Distinct records name the topmost one never and any other one once at most. -/
theorem nodup_named
    {indices : List Nat}
    (distinct : indices.Nodup)
    (inRange : ∀ index ∈ indices, index < links.children.size) :
    (links.root :: named (indices.filterMap (links.children[·]?))).Nodup := by
  obtain ⟨picked, perm, sublist⟩ := named_subperm distinct inRange
  exact perm.nodup_iff.mp (once.distinct.sublist sublist)

/-- There are not more names than records. -/
theorem length_named_le
    {indices : List Nat}
    (distinct : indices.Nodup)
    (inRange : ∀ index ∈ indices, index < links.children.size) :
    (links.root :: named (indices.filterMap (links.children[·]?))).length ≤
      links.children.size := by
  have within : links.root :: named links.children.toList ⊆ List.range links.children.size :=
    fun index member => List.mem_range.mpr (once.small index member)
  have bound := (List.subperm_of_subset once.distinct within).length_le
  rw [List.length_range] at bound
  exact Nat.le_trans (named_subperm distinct inRange).length_le bound

theorem root_lt : ∀ index ∈ some links.root, index < links.children.size := by
  intro index isRoot
  cases isRoot
  exact once.small links.root (List.mem_cons_self ..)

/-- No record grows twice. -/
theorem nodup_grow (depth : Nat) : (links.grow depth (some links.root)).toList.Nodup := by
  induction depth with
  | zero =>
      exact List.nodup_nil
  | succ depth inductionHypothesis =>
      exact (once.grow_perm depth once.root_lt).nodup_iff.mpr
        (once.nodup_named inductionHypothesis fun index => lt_of_mem_grow)

/-- What was cut short has a record on every level. -/
theorem follows_or_deep
    (depth : Nat)
    (inRange : ∀ index ∈ link, index < links.children.size) :
    links.Follows link (links.grow depth link) ∨
      depth ≤ (links.grow depth link).toList.length := by
  induction depth generalizing link with
  | zero =>
      exact .inr (Nat.zero_le _)
  | succ depth inductionHypothesis =>
      cases link with
      | none =>
          exact .inl rfl
      | some index =>
          obtain ⟨left, right, found, leftInRange, rightInRange⟩ :=
            once.exists_children (inRange index rfl)
          rw [grow, found]
          simp only [LinkTree.toList, List.length_append, List.length_cons]
          rcases inductionHypothesis leftInRange with leftFollows | leftDeep
          · rcases inductionHypothesis rightInRange with rightFollows | rightDeep
            · exact .inl ⟨rfl, _, found, leftFollows, rightFollows⟩
            · exact .inr (by omega)
          · exact .inr (by omega)

/-- The links lead along the tree that they make, which has no record twice. -/
theorem follows_toTree :
    links.Follows (some links.root) links.toTree ∧ links.toTree.toList.Nodup := by
  have distinct := once.nodup_grow links.children.size
  refine ⟨?_, distinct⟩
  rcases once.follows_or_deep links.children.size once.root_lt with follows | deep
  · exact follows
  · -- A record on every level is as many as there are, so no more can be named.
    obtain ⟨enough, follows_of_full⟩ :=
      grow_counted links links.children.size (some links.root)
    refine follows_of_full (Nat.le_antisymm enough (Nat.le_trans ?_ deep))
    exact once.length_named_le distinct fun index => lt_of_mem_grow

end NamesOnce

end OrderedIndex.Links
