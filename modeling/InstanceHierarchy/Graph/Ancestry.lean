import InstanceHierarchy.Graph.Basic

/-!
# Ancestors

The ancestors of some nodes are found breadth first along the parent edges, so nearer ones come
before farther ones.  Every parent edge is followed once, when the node it leaves is met for the
first time; that bounds the search on every graph, cyclic or not.
-/

namespace InstanceHierarchy

/-- Append to a list the members of another one that it does not hold yet. -/
def appendNew (seen : List Id) : List Id → List Id
  | [] => seen
  | x :: rest => appendNew (if x ∈ seen then seen else seen ++ [x]) rest

/-- The parents that the parent edges, child first, give a node. -/
def parentsAmong (pairs : List (Id × Id)) (id : Id) : List Id :=
  (pairs.filter fun e => e.1 = id).map (·.2)

/-- The parent edges that leave other nodes. -/
def pairsWithout (pairs : List (Id × Id)) (id : Id) : List (Id × Id) :=
  pairs.filter fun e => !decide (e.1 = id)

theorem length_pairsWithout (pairs : List (Id × Id)) (id : Id) :
    (pairsWithout pairs id).length + (parentsAmong pairs id).length = pairs.length := by
  have h := List.length_eq_countP_add_countP (fun e : Id × Id => decide (e.1 = id)) (l := pairs)
  rw [h, Nat.add_comm]
  simp [pairsWithout, parentsAmong, List.countP_eq_length_filter]

/-- Search on from a queue of nodes.  `unused` holds the parent edges, child first, of the nodes
that were not met before; `found` holds the parents met so far. -/
def ancestorsFrom (unused : List (Id × Id)) (found queue : List Id) : List Id :=
  match queue with
  | [] => found
  | id :: queue =>
      -- a node met again has no unused edges left, so it adds nothing
      ancestorsFrom (pairsWithout unused id) (appendNew found (parentsAmong unused id))
        (queue ++ parentsAmong unused id)
  termination_by unused.length + queue.length
  decreasing_by
    have h := length_pairsWithout unused id
    simp only [List.length_append, List.length_cons]
    omega

namespace Graph

/-- The parent edges, child first. -/
def parentPairs (g : Graph) : List (Id × Id) :=
  (g.edgesWithLabel EdgeLabel.hasParent).map fun e => (e.source, e.target)

/-- The ids reached from the start ids by one parent edge or more, nearest first and each once.  A
start id is among them only when it is reached from a start id. -/
def ancestors (g : Graph) (start : List Id) : List Id := ancestorsFrom g.parentPairs [] start

end Graph
end InstanceHierarchy
