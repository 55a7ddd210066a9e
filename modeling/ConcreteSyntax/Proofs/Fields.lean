import ConcreteSyntax.Proofs.Ranges
import ConcreteSyntax.Proofs.Relatives
import ConcreteSyntax.Tree.Record
import Mathlib.Data.List.Nodup

/-!
The lookups of children by field, against each other.

The field of a child is found by its number, or by a pass over the children that reads it where the
cursor stands. Searches by a name and by its identifier come to the same child because a grammar has
one identifier for every name.
-/

namespace ConcreteSyntax

structure FieldTable where
  entries : List (Nat × String)
  distinctIds : (entries.map (·.1)).Nodup
  distinctNames : (entries.map (·.2)).Nodup
  positive : ∀ entry ∈ entries, 0 < entry.1

namespace FieldTable

/-- The field of a label, if it has one, is in the table. -/
def Lists (table : FieldTable) (label : Label) : Prop :=
  ∀ field ∈ label.field, (field.id, field.name) ∈ table.entries

instance (table : FieldTable) (label : Label) : Decidable (table.Lists label) :=
  inferInstanceAs (Decidable (∀ field ∈ label.field, (field.id, field.name) ∈ table.entries))

namespace Lists

variable {table : FieldTable} {label : Label}

theorem name_mem (listed : table.Lists label) {name : String}
    (named : label.fieldName = some name) : name ∈ table.entries.map (·.2) := by
  obtain ⟨field, here, rfl⟩ := Option.map_eq_some_iff.mp named
  exact List.mem_map_of_mem (listed field here)

theorem id_mem (listed : table.Lists label) (positive : label.fieldId ≠ 0) :
    label.fieldId ∈ table.entries.map (·.1) := by
  cases here : label.field with
  | none => simp [Label.fieldId, here] at positive
  | some field =>
      rw [Label.fieldId, here]
      exact List.mem_map_of_mem (listed field here)

theorem fieldName_eq_iff (listed : table.Lists label) {id : Nat} {name : String}
    (member : (id, name) ∈ table.entries) : label.fieldName = some name ↔ label.fieldId = id := by
  have positive : 0 < id := table.positive _ member
  cases here : label.field with
  | none =>
      refine iff_of_false (by simp [Label.fieldName, here]) ?_
      rw [Label.fieldId, here, Option.map_none, Option.getD_none]
      omega
  | some field =>
      have other := listed field here
      rw [Label.fieldName, Label.fieldId, here, Option.map_some, Option.map_some,
        Option.getD_some, Option.some_inj]
      constructor
      · intro same
        exact congrArg Prod.fst (List.inj_on_of_nodup_map table.distinctNames other member same)
      · intro same
        exact congrArg Prod.snd (List.inj_on_of_nodup_map table.distinctIds other member same)

end Lists

end FieldTable

namespace Tree

theorem mem_forestPreorder {tree : Tree} {trees : List Tree} {entry : Entry}
    (member : tree ∈ trees) (inside : entry ∈ tree.preorder) : entry ∈ forestPreorder trees := by
  obtain ⟨before, after, rfl⟩ := List.append_of_mem member
  rw [forestPreorder_append, forestPreorder]
  exact List.mem_append_right _ (List.mem_append_left _ inside)

theorem everywhere_of_preorder {property : Label → Prop} (tree : Tree)
    (entries : ∀ entry ∈ tree.preorder, property entry.label) :
    tree.Everywhere fun subtree => property subtree.label := by
  match tree with
  | node label children =>
      rw [preorder] at entries
      refine everywhere_node.mpr ⟨entries _ List.mem_cons_self, ?_⟩
      intro child member
      apply child.everywhere_of_preorder
      intro entry inside
      exact entries entry (List.mem_cons_of_mem _ (mem_forestPreorder member inside))
termination_by tree.size
decreasing_by exact size_lt_of_mem_children member

end Tree

theorem exists_of_mem_mapM {First Second : Type} {read : First → Option Second}
    {sources : List First} {results : List Second} (all : sources.mapM read = some results)
    {result : Second} (member : result ∈ results) :
    ∃ source ∈ sources, read source = some result := by
  induction sources generalizing results with
  | nil =>
      injection all with same
      simp [← same] at member
  | cons first rest ih =>
      simp only [List.mapM_cons, Option.bind_eq_bind, Option.bind_eq_some_iff,
        Option.pure_def, Option.some_inj] at all
      obtain ⟨head, here, tail, later, rfl⟩ := all
      rcases List.mem_cons.mp member with rfl | member
      · exact ⟨first, List.mem_cons_self, here⟩
      · obtain ⟨source, among, same⟩ := ih later member
        exact ⟨source, List.mem_cons_of_mem _ among, same⟩

theorem RecordRow.lists_of_read? {row : RecordRow} {kinds : List (Nat × String)}
    {table : FieldTable} {firstChar : Option Char} {entry : Entry}
    (read : row.read? kinds table.entries firstChar = some entry) : table.Lists entry.label := by
  simp only [read?, Option.bind_eq_bind, Option.bind_eq_some_iff, Option.some_inj] at read
  obtain ⟨kind, _, grammarName, _, rfl⟩ := read
  intro field here
  obtain ⟨name, found, rfl⟩ := Option.map_eq_some_iff.mp here
  obtain ⟨before, after, entries, _⟩ := List.lookup_eq_some_iff.mp found
  rw [entries]
  exact List.mem_append_right _ List.mem_cons_self

theorem Record.everywhere_lists {record : Record} {table : FieldTable}
    (fields : record.fields = table.entries) {firstChars : List (Option Char)} {tree : Tree}
    (read : record.tree? firstChars = some tree) :
    tree.Everywhere fun subtree => table.Lists subtree.label := by
  simp only [Record.tree?, Option.bind_eq_bind, Option.bind_eq_some_iff] at read
  obtain ⟨entries, rows, whole⟩ := read
  apply tree.everywhere_of_preorder
  rw [Tree.preorder_of_ofPreorder? whole]
  intro entry member
  obtain ⟨start, _, same⟩ := exists_of_mem_mapM rows member
  rw [fields] at same
  exact RecordRow.lists_of_read? same

theorem Record.lists_childNodes {record : Record} {table : FieldTable}
    (fields : record.fields = table.entries) {firstChars : List (Option Char)} {tree : Tree}
    (read : record.tree? firstChars = some tree) {node : Node} {path : List Nat}
    (inside : tree.subtreeAt? path = some node.subtree) :
    ∀ child ∈ node.childNodes, table.Lists child.label := by
  intro child member
  obtain ⟨index, bound, rfl⟩ := List.mem_iff_getElem.mp member
  simp only [Node.childNodes, List.getElem_mapIdx]
  apply Record.everywhere_lists fields read (path ++ [index])
  rw [Tree.subtreeAt?_append, inside, Option.bind_some]
  exact Tree.subtreeAt?_cons.mpr ⟨_, List.getElem?_eq_getElem _, rfl⟩

namespace Node

variable (node : Node)

theorem childrenByFieldName_eq (name : String) :
    node.childrenByFieldName name =
      node.childNodes.filter (·.label.fieldName = some name) := by
  have every : PassPlace.fresh.taken node.walk.isNamedChild .all =
      List.finRange node.walk.focus.children.length :=
    List.filter_eq_self.mpr (by simp [Traversal.all])
  have children := node.walk.childNodes_node
  rw [Cursor.node_walk] at children
  rw [childrenByFieldName, iterate, Cursor.stops_drain, every, children, List.filter_map,
    List.filter_map, List.map_map]
  exact List.map_congr_left fun index _ => node.walk.node_onChild index

theorem filter_zipIdx_children (name : String) :
    (node.children.zipIdx.filter fun entry =>
        node.fieldNameForChild? entry.2 = some name).map (·.1) =
      node.childNodes.filter (·.label.fieldName = some name) := by
  have same : node.children = node.childNodes := node.children_eq
  have read : ∀ entry ∈ node.childNodes.zipIdx,
      node.fieldNameForChild? entry.2 = entry.1.label.fieldName := by
    intro entry member
    rw [fieldNameForChild?, List.mem_zipIdx_iff_getElem?.mp member, Option.bind_some]
  rw [same, List.filter_congr fun entry member => by rw [read entry member]]
  conv => rhs; rw [← List.zipIdx_map_fst 0 node.childNodes, List.filter_map]
  rfl

variable {node}

theorem exists_position {child : Node} (member : child ∈ node.childNodes) :
    ∃ position, child.position? = some position ∧ node.childNodes[position]? = some child := by
  obtain ⟨position, bound, same⟩ := List.mem_iff_getElem.mp member
  refine ⟨position, ?_, by rw [List.getElem?_eq_getElem bound, same]⟩
  rw [← same]
  simp only [childNodes, List.getElem_mapIdx]
  exact node.position?_below position _

theorem childByFieldName?_eq (name : String) :
    node.childByFieldName? name = (node.childrenByFieldName name).head? := by
  rw [childrenByFieldName_eq, List.head?_filter, childByFieldName?]

theorem exists_position_of_namedChild {index : Nat} (counted : index < 0x100000000)
    (bound : index < node.namedChildCount) :
    ∃ child position, node.namedChild? index = some child ∧
      child.position? = some position ∧ node.children[position]? = some child ∧
      node.fieldNameForNamedChild? index = node.fieldNameForChild? position := by
  rw [← length_namedChildNodes] at bound
  have here := List.getElem?_eq_getElem bound
  have inside := List.mem_of_mem_filter (List.getElem_mem bound)
  obtain ⟨position, place, among⟩ := exists_position inside
  refine ⟨_, position, ?_, place, ?_, ?_⟩
  · rw [namedChild?, wrap_eq_self_iff.mpr counted, here]
  · rw [children_eq]
    exact among
  · rw [fieldNameForNamedChild?, here, fieldNameForChild?, among]

theorem fieldNameForNamedChild?_eq_none {index : Nat} (past : node.namedChildCount ≤ index) :
    node.fieldNameForNamedChild? index = none := by
  rw [← length_namedChildNodes] at past
  rw [fieldNameForNamedChild?, List.getElem?_eq_none past, Option.bind_none]

section

variable {table : FieldTable} (listed : ∀ child ∈ node.childNodes, table.Lists child.label)

include listed

theorem childByFieldId?_eq {id : Nat} {name : String} (member : (id, name) ∈ table.entries) :
    node.childByFieldId? id = (node.childrenByFieldName name).head? := by
  have positive : id ≠ 0 := Nat.ne_of_gt (table.positive _ member)
  have same : ∀ child ∈ node.childNodes,
      decide (child.label.fieldName = some name) = decide (child.label.fieldId = id) :=
    fun child inside => decide_eq_decide.mpr ((listed child inside).fieldName_eq_iff member)
  rw [childrenByFieldName_eq, List.filter_congr same, List.head?_filter, childByFieldId?,
    if_neg positive]

theorem childrenByFieldName_eq_nil {name : String} (unknown : name ∉ table.entries.map (·.2)) :
    node.childrenByFieldName name = [] := by
  rw [childrenByFieldName_eq, List.filter_eq_nil_iff]
  intro child inside named
  exact unknown ((listed child inside).name_mem (of_decide_eq_true named))

theorem childByFieldId?_eq_none {id : Nat} (unknown : id ∉ table.entries.map (·.1)) :
    node.childByFieldId? id = none := by
  rw [childByFieldId?]
  split
  next => rfl
  next positive =>
    rw [List.find?_eq_none]
    intro child inside same
    rw [decide_eq_true_eq] at same
    subst same
    exact unknown ((listed child inside).id_mem positive)

theorem fieldNameForChild?_ne {name : String} (unknown : name ∉ table.entries.map (·.2))
    (index : Nat) : node.fieldNameForChild? index ≠ some name := by
  intro named
  obtain ⟨child, found, named⟩ := Option.bind_eq_some_iff.mp named
  exact unknown ((listed child (List.mem_of_getElem? found)).name_mem named)

end

end Node

/-- The ways to look for the children of a node in a field come to the same children. The numbers of
children are 32-bit counters. -/
structure FieldTable.Agrees (table : FieldTable) (node : Node) : Prop where
  inField : ∀ name, node.childrenByFieldName name =
    (node.children.zipIdx.filter fun entry =>
      node.fieldNameForChild? entry.2 = some name).map (·.1)
  firstByName : ∀ name, node.childByFieldName? name = (node.childrenByFieldName name).head?
  firstById : ∀ entry ∈ table.entries,
    node.childByFieldId? entry.1 = (node.childrenByFieldName entry.2).head?
  namedNumber : ∀ index < 0x100000000, index < node.namedChildCount →
    ∃ child position, node.namedChild? index = some child ∧
      child.position? = some position ∧ node.children[position]? = some child ∧
      node.fieldNameForNamedChild? index = node.fieldNameForChild? position
  pastNamed : ∀ index, node.namedChildCount ≤ index → node.fieldNameForNamedChild? index = none
  unknownName : ∀ name ∉ table.entries.map (·.2),
    node.childrenByFieldName name = [] ∧ node.childByFieldName? name = none ∧
      ∀ index, node.fieldNameForChild? index ≠ some name
  unknownId : ∀ id ∉ table.entries.map (·.1), node.childByFieldId? id = none
  noId : node.childByFieldId? 0 = none

namespace Node

theorem fields_agree {node : Node} {table : FieldTable}
    (listed : ∀ child ∈ node.childNodes, table.Lists child.label) : table.Agrees node := by
  constructor
  · intro name
    rw [childrenByFieldName_eq, filter_zipIdx_children]
  · exact childByFieldName?_eq
  · intro entry member
    exact childByFieldId?_eq listed member
  · intro index counted bound
    exact exists_position_of_namedChild counted bound
  · intro index past
    exact fieldNameForNamedChild?_eq_none past
  · intro name unknown
    have nothing := childrenByFieldName_eq_nil listed unknown
    refine ⟨nothing, ?_, fieldNameForChild?_ne listed unknown⟩
    rw [childByFieldName?_eq, nothing, List.head?_nil]
  · intro id unknown
    exact childByFieldId?_eq_none listed unknown
  · rfl

end Node

def operandFields : FieldTable where
  entries := [(22, "left"), (26, "operator"), (32, "right")]
  distinctIds := by decide
  distinctNames := by decide
  positive := by decide

theorem comparison_fields :
    (∀ child ∈ comparison.childNodes, operandFields.Lists child.label) ∧
      operandFields.Agrees comparison := by
  have listed : ∀ child ∈ comparison.childNodes, operandFields.Lists child.label := by decide
  exact ⟨listed, Node.fields_agree listed⟩

end ConcreteSyntax
