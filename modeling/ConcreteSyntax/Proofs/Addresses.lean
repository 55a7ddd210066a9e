import ConcreteSyntax.Tree

/-!
Addresses in a tree and their pre-order.

The addresses of the nodes of a tree, a node before its children and these from left to right, are
listed in the order in which nodes are counted. So the count of an address is its position in the
list, and the address of a count is the entry there.
-/

namespace ConcreteSyntax

namespace Tree

theorem subtreeAt?_append (tree : Tree) (path more : List Nat) :
    tree.subtreeAt? (path ++ more) = (tree.subtreeAt? path).bind (·.subtreeAt? more) := by
  induction path generalizing tree with
  | nil => rfl
  | cons index path ih =>
      rw [List.cons_append, subtreeAt?, subtreeAt?]
      cases tree.children[index]? with
      | none => rfl
      | some child => exact ih child

theorem subtreeAt?_cons {tree subtree : Tree} {index : Nat} {path : List Nat} :
    tree.subtreeAt? (index :: path) = some subtree ↔
      ∃ child, tree.children[index]? = some child ∧ child.subtreeAt? path = some subtree := by
  rw [subtreeAt?, Option.bind_eq_some_iff]

theorem forestSize_append (trees more : List Tree) :
    forestSize (trees ++ more) = forestSize trees + forestSize more := by
  induction trees with
  | nil => simp [forestSize]
  | cons tree rest ih =>
      rw [List.cons_append, forestSize, forestSize, ih]
      omega

theorem forestSize_reverse (trees : List Tree) : forestSize trees.reverse = forestSize trees := by
  induction trees with
  | nil => rfl
  | cons tree rest ih =>
      rw [List.reverse_cons, forestSize_append, ih]
      simp only [forestSize]
      omega

theorem forestSize_take_le {trees : List Tree} {index : Nat} {tree : Tree}
    (here : trees[index]? = some tree) :
    forestSize (trees.take index) + tree.size ≤ forestSize trees := by
  obtain ⟨bound, same⟩ := List.getElem?_eq_some_iff.mp here
  have split := congrArg forestSize (List.take_append_drop index trees)
  rw [List.drop_eq_getElem_cons bound, same, forestSize_append, forestSize] at split
  omega

theorem forestSize_take_mono (trees : List Tree) {first last : Nat} (ordered : first ≤ last) :
    forestSize (trees.take first) ≤ forestSize (trees.take last) := by
  have split := congrArg forestSize (List.take_add (l := trees) (i := first) (j := last - first))
  rw [Nat.add_sub_of_le ordered, forestSize_append] at split
  omega

theorem size_eq (tree : Tree) : tree.size = forestSize tree.children + 1 := by
  cases tree
  rfl

theorem indexAt_add_size_le {tree subtree : Tree} {path : List Nat}
    (here : tree.subtreeAt? path = some subtree) :
    tree.indexAt path + subtree.size ≤ tree.size := by
  induction path generalizing tree with
  | nil =>
      injection here with same
      subst same
      simp [indexAt]
  | cons index path ih =>
      obtain ⟨child, found, below⟩ := subtreeAt?_cons.mp here
      have inner := ih below
      have outer := forestSize_take_le found
      rw [indexAt, found, size_eq tree]
      simp only [Option.map_some, Option.getD_some]
      omega

theorem indexAt_append {tree subtree : Tree} {path : List Nat} (more : List Nat)
    (here : tree.subtreeAt? path = some subtree) :
    tree.indexAt (path ++ more) = tree.indexAt path + subtree.indexAt more := by
  induction path generalizing tree with
  | nil =>
      injection here with same
      subst same
      simp [indexAt]
  | cons index path ih =>
      obtain ⟨child, found, below⟩ := subtreeAt?_cons.mp here
      rw [List.cons_append, indexAt, indexAt, found]
      simp only [Option.map_some, Option.getD_some, ih below]
      omega

mutual

def addresses : Tree → List (List Nat)
  | node _ children => [] :: forestAddresses children 0

def forestAddresses : List Tree → Nat → List (List Nat)
  | [], _ => []
  | tree :: rest, position =>
      tree.addresses.map (position :: ·) ++ forestAddresses rest (position + 1)

end

mutual

theorem length_addresses (tree : Tree) : tree.addresses.length = tree.size := by
  match tree with
  | node _ children => rw [addresses, List.length_cons, length_forestAddresses, size]

theorem length_forestAddresses (trees : List Tree) (position : Nat) :
    (forestAddresses trees position).length = forestSize trees := by
  match trees with
  | [] => rfl
  | tree :: rest =>
      rw [forestAddresses, List.length_append, List.length_map, length_addresses tree,
        length_forestAddresses rest, forestSize]

end

mutual

theorem pathAt?_eq (tree : Tree) (index : Nat) : tree.pathAt? index = tree.addresses[index]? := by
  match tree, index with
  | node _ _, 0 => rfl
  | node _ children, index + 1 =>
      rw [pathAt?, addresses, List.getElem?_cons_succ, forestPathAt?_eq children]

theorem forestPathAt?_eq (trees : List Tree) (index position : Nat) :
    forestPathAt? trees index position = (forestAddresses trees position)[index]? := by
  match trees with
  | [] => rfl
  | tree :: rest =>
      rw [forestPathAt?, forestAddresses]
      split
      next inside =>
        rw [List.getElem?_append_left (by rwa [List.length_map, length_addresses]),
          List.getElem?_map, pathAt?_eq tree]
      next outside =>
        rw [List.getElem?_append_right (by rw [List.length_map, length_addresses]; omega),
          List.length_map, length_addresses, forestPathAt?_eq rest]

end

theorem getElem?_forestAddresses {trees : List Tree} {index : Nat} {tree : Tree}
    (here : trees[index]? = some tree) {inner : Nat} (inside : inner < tree.size)
    (position : Nat) :
    (forestAddresses trees position)[forestSize (trees.take index) + inner]? =
      (tree.addresses[inner]?).map ((position + index) :: ·) := by
  induction trees generalizing index position with
  | nil => simp at here
  | cons first rest ih =>
      rw [forestAddresses]
      cases index with
      | zero =>
          rw [List.getElem?_cons_zero, Option.some_inj] at here
          subst here
          simp only [List.take_zero, forestSize, Nat.zero_add]
          rw [List.getElem?_append_left (by rwa [List.length_map, length_addresses]),
            List.getElem?_map]
          rfl
      | succ index =>
          rw [List.getElem?_cons_succ] at here
          rw [List.take_succ_cons, forestSize,
            List.getElem?_append_right (by rw [List.length_map, length_addresses]; omega),
            List.length_map, length_addresses, Nat.add_assoc, Nat.add_sub_cancel_left,
            ih here, Nat.add_assoc, Nat.add_comm 1 index]

theorem getElem?_addresses_indexAt {tree subtree : Tree} {path : List Nat}
    (here : tree.subtreeAt? path = some subtree) :
    tree.addresses[tree.indexAt path]? = some path := by
  induction path generalizing tree with
  | nil =>
      cases tree
      rfl
  | cons index path ih =>
      obtain ⟨child, found, below⟩ := subtreeAt?_cons.mp here
      have inside := indexAt_add_size_le below
      have filled := subtree.size_pos
      cases tree with
      | node label children =>
          rw [children_node] at found
          rw [indexAt, addresses, Nat.add_assoc, Nat.add_comm 1, List.getElem?_cons_succ,
            children_node, found]
          simp only [Option.map_some, Option.getD_some]
          rw [getElem?_forestAddresses found (by omega), ih below]
          simp

theorem of_getElem?_forestAddresses {trees : List Tree} {index position : Nat} {path : List Nat}
    (here : (forestAddresses trees position)[index]? = some path) :
    ∃ place tree rest inner, path = (position + place) :: rest ∧ trees[place]? = some tree ∧
      index = forestSize (trees.take place) + inner ∧ tree.addresses[inner]? = some rest := by
  induction trees generalizing index position with
  | nil => simp [forestAddresses] at here
  | cons first others ih =>
      rw [forestAddresses] at here
      by_cases inside : index < first.size
      · rw [List.getElem?_append_left (by rwa [List.length_map, length_addresses]),
          List.getElem?_map, Option.map_eq_some_iff] at here
        obtain ⟨rest, found, same⟩ := here
        exact ⟨0, first, rest, index, same.symm, rfl, by simp [forestSize], found⟩
      · rw [List.getElem?_append_right (by rw [List.length_map, length_addresses]; omega),
          List.length_map, length_addresses] at here
        obtain ⟨place, tree, rest, inner, same, found, counted, below⟩ := ih here
        refine ⟨place + 1, tree, rest, inner, ?_, found, ?_, below⟩
        · rw [same, Nat.add_assoc, Nat.add_comm 1 place]
        · rw [List.take_succ_cons, forestSize]
          omega

theorem of_getElem?_addresses {tree : Tree} {index : Nat} {path : List Nat}
    (here : tree.addresses[index]? = some path) :
    (∃ subtree, tree.subtreeAt? path = some subtree) ∧ tree.indexAt path = index := by
  induction path generalizing tree index with
  | nil =>
      cases tree with
      | node label children =>
          cases index with
          | zero => exact ⟨⟨_, rfl⟩, rfl⟩
          | succ index =>
              rw [addresses, List.getElem?_cons_succ] at here
              obtain ⟨_, _, _, _, same, _⟩ := of_getElem?_forestAddresses here
              contradiction
  | cons place path ih =>
      cases tree with
      | node label children =>
          cases index with
          | zero => simp [addresses] at here
          | succ index =>
              rw [addresses, List.getElem?_cons_succ] at here
              obtain ⟨_, child, _, inner, same, found, counted, below⟩ :=
                of_getElem?_forestAddresses here
              rw [Nat.zero_add] at same
              injection same with same rest
              subst same rest
              obtain ⟨⟨subtree, leads⟩, count⟩ := ih below
              refine ⟨⟨subtree, subtreeAt?_cons.mpr ⟨child, found, leads⟩⟩, ?_⟩
              rw [indexAt, children_node, found]
              simp only [Option.map_some, Option.getD_some]
              omega

theorem getElem?_addresses_append {tree subtree : Tree} {path more : List Nat} {index : Nat}
    (here : tree.subtreeAt? path = some subtree)
    (below : subtree.addresses[index]? = some more) :
    tree.addresses[tree.indexAt path + index]? = some (path ++ more) := by
  obtain ⟨⟨target, leads⟩, counted⟩ := of_getElem?_addresses below
  have whole : tree.subtreeAt? (path ++ more) = some target := by
    rw [subtreeAt?_append, here, Option.bind_some, leads]
  rw [← counted, ← indexAt_append more here]
  exact getElem?_addresses_indexAt whole

end Tree

end ConcreteSyntax
