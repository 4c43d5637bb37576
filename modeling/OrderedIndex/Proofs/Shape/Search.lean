import OrderedIndex.Proofs.Order
import OrderedIndex.Proofs.Shape.Sequence

namespace OrderedIndex.Shape

/-!
# Searching a shape

A search splits the sequence of a shape's nodes where its descent ends: into the
nodes in front, a node with an equal key if one was met, and the nodes behind.
What an insertion adds and what a removal takes away are told by this split,
whatever the comparison.  The nodes next to the split were compared on the way
down, so a comparison that separates the keys has all smaller ones in front and
all greater ones behind.
-/

variable {Key : Type} {probe : Key → Ordering}

/-- A comparison with keys, as a comparison with nodes. -/
def onKey (probe : Key → Ordering) (node : NodeId × Key) : Ordering := probe node.2

/-- Where a search splits a shape, and what the operations make of the split. -/
inductive Searched (probe : Key → Ordering) (shape : Shape Key) : Prop where
  /-- At a node with an equal key. -/
  | present
      (below above : List (NodeId × Key))
      (id : NodeId)
      (key : Key)
      (sequence : shape.toList = below ++ (id, key) :: above)
      (equal : probe key = .eq)
      (located : shape.locate probe = .present id)
      (erased : (shape.erase probe).toList = below ++ above)
  /-- Between two neighbouring nodes or at an end. -/
  | absent
      (below above : List (NodeId × Key))
      (sequence : shape.toList = below ++ above)
      (isBelow : ∀ node ∈ below.getLast?, onKey probe node = .gt)
      (isAbove : ∀ node ∈ above.head?, onKey probe node = .lt)
      (located :
        shape.locate probe =
          .absent (below.getLast?.map Prod.fst) (above.head?.map Prod.fst))
      (inserted :
        ∀ id key, (shape.insert probe id key).toList = below ++ (id, key) :: above)

namespace Path

/-- Every step of a path goes the way that the comparison at its node says. -/
def Directed (probe : Key → Ordering) : Path Key → Prop
  | [] => True
  | .left _ key _ :: rest => probe key = .lt ∧ Directed probe rest
  | .right _ _ key :: rest => probe key = .gt ∧ Directed probe rest

theorem directed_nil : Directed probe ([] : Path Key) := trivial

/-- The nodes between which a directed path ends are below and above the sought key. -/
theorem Directed.ends
    {path : Path Key}
    (directed : path.Directed probe) :
    (∀ node ∈ path.before.getLast?, onKey probe node = .gt) ∧
      ∀ node ∈ path.after.head?, onKey probe node = .lt := by
  induction path with
  | nil =>
      simp [before, after]
  | cons step rest inductionHypothesis =>
      cases step with
      | left id key right =>
          obtain ⟨isAbove, restDirected⟩ := directed
          exact ⟨(inductionHypothesis restDirected).1, by simpa [after, onKey] using isAbove⟩
      | right left id key =>
          obtain ⟨isBelow, restDirected⟩ := directed
          exact ⟨by simpa [before, onKey] using isBelow, (inductionHypothesis restDirected).2⟩

end Path

/-- A descent only takes steps that its comparisons call for. -/
theorem descend_directed
    {path finalPath : Path Key}
    {shape subtree : Shape Key}
    (directed : path.Directed probe)
    (descended : shape.descend probe path = (finalPath, subtree)) :
    finalPath.Directed probe := by
  induction shape generalizing path with
  | empty =>
      simp only [descend, Prod.mk.injEq] at descended
      obtain ⟨rfl, rfl⟩ := descended
      exact directed
  | node left id key height right leftHypothesis rightHypothesis =>
      cases compared : probe key with
      | lt =>
          simp only [descend, compared] at descended
          have leftDirected : Path.Directed probe (.left id key right :: path) :=
            ⟨compared, directed⟩
          exact leftHypothesis leftDirected descended
      | gt =>
          simp only [descend, compared] at descended
          have rightDirected : Path.Directed probe (.right left id key :: path) :=
            ⟨compared, directed⟩
          exact rightHypothesis rightDirected descended
      | eq =>
          simp only [descend, compared, Prod.mk.injEq] at descended
          obtain ⟨rfl, rfl⟩ := descended
          exact directed

/-- A descent that does not run off the shape ends at an equal key. -/
theorem equal_of_descend
    {path finalPath : Path Key}
    {shape left right : Shape Key}
    {id : NodeId}
    {key : Key}
    {height : Nat}
    (descended : shape.descend probe path = (finalPath, .node left id key height right)) :
    probe key = .eq := by
  induction shape generalizing path with
  | empty =>
      simp [descend] at descended
  | node otherLeft other otherKey otherHeight otherRight leftHypothesis rightHypothesis =>
      cases compared : probe otherKey with
      | lt =>
          simp only [descend, compared] at descended
          exact leftHypothesis descended
      | gt =>
          simp only [descend, compared] at descended
          exact rightHypothesis descended
      | eq =>
          simp only [descend, compared, Prod.mk.injEq, node.injEq] at descended
          obtain ⟨_, _, _, rfl, _, _⟩ := descended
          exact compared

/-- Every search splits a shape. -/
theorem searched (probe : Key → Ordering) (shape : Shape Key) : Searched probe shape := by
  cases descended : shape.descend probe [] with
  | mk path subtree =>
      have sequence : shape.toList = path.before ++ subtree.toList ++ path.after := by
        simpa [Path.before, Path.after] using toList_of_descend descended
      cases subtree with
      | empty =>
          obtain ⟨isBelow, isAbove⟩ := (descend_directed Path.directed_nil descended).ends
          refine .absent path.before path.after (by simpa using sequence) isBelow isAbove ?_ ?_
          · simp [locate, descended, Path.below?_eq, Path.above?_eq]
          · intro id key
            simp [insert, descended, single]
      | node left id key height right =>
          refine .present (path.before ++ left.toList) (right.toList ++ path.after) id key
            (by simpa using sequence) (equal_of_descend descended) ?_ ?_
          · simp [locate, descended]
          · simp [erase, descended]

end OrderedIndex.Shape
