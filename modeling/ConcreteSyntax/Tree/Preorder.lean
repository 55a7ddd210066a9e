import ConcreteSyntax.Tree

/-!
The flat form of a tree: its nodes in pre-order, each with its number of children.

Reading goes from the last entry to the first and keeps the trees that still wait for a parent,
the leftmost first. An entry with `n` children takes the first `n` of them.
-/

namespace ConcreteSyntax

structure Entry where
  label : Label
  childCount : Nat
deriving DecidableEq

namespace Entry

def plant (entry : Entry) (waiting : List Tree) : Option (List Tree) :=
  if entry.childCount ≤ waiting.length then
    some (.node entry.label (waiting.take entry.childCount) :: waiting.drop entry.childCount)
  else none

end Entry

namespace Tree

def forestOfPreorder? (entries : List Entry) : Option (List Tree) :=
  entries.foldr (fun entry waiting => waiting.bind entry.plant) (some [])

def ofPreorder? (entries : List Entry) : Option Tree :=
  match forestOfPreorder? entries with
  | some [tree] => some tree
  | _ => none

mutual

def preorder : Tree → List Entry
  | node label children => ⟨label, children.length⟩ :: forestPreorder children

def forestPreorder : List Tree → List Entry
  | [] => []
  | tree :: rest => tree.preorder ++ forestPreorder rest

end

mutual

theorem forestOfPreorder?_preorder_append (tree : Tree) (rest : List Entry) (waiting : List Tree)
    (read : forestOfPreorder? rest = some waiting) :
    forestOfPreorder? (tree.preorder ++ rest) = some (tree :: waiting) := by
  match tree with
  | node label children =>
      have inner := forestOfPreorder?_forestPreorder_append children rest waiting read
      rw [preorder, List.cons_append, forestOfPreorder?, List.foldr_cons]
      rw [forestOfPreorder?] at inner
      rw [inner, Option.bind_some, Entry.plant, if_pos (by simp)]
      simp

theorem forestOfPreorder?_forestPreorder_append (trees : List Tree) (rest : List Entry)
    (waiting : List Tree) (read : forestOfPreorder? rest = some waiting) :
    forestOfPreorder? (forestPreorder trees ++ rest) = some (trees ++ waiting) := by
  match trees with
  | [] => exact read
  | tree :: others =>
      have after := forestOfPreorder?_forestPreorder_append others rest waiting read
      rw [forestPreorder, List.append_assoc]
      exact forestOfPreorder?_preorder_append tree _ _ after

end

theorem forestPreorder_append (first second : List Tree) :
    forestPreorder (first ++ second) = forestPreorder first ++ forestPreorder second := by
  induction first with
  | nil => rfl
  | cons tree rest ih => rw [List.cons_append, forestPreorder, forestPreorder, ih, List.append_assoc]

theorem forestPreorder_of_forestOfPreorder? {entries : List Entry} {trees : List Tree}
    (read : forestOfPreorder? entries = some trees) : forestPreorder trees = entries := by
  induction entries generalizing trees with
  | nil =>
      injection read with same
      rw [← same, forestPreorder]
  | cons entry rest ih =>
      rw [forestOfPreorder?, List.foldr_cons, Option.bind_eq_some_iff] at read
      obtain ⟨waiting, before, planted⟩ := read
      rw [Entry.plant] at planted
      split at planted
      next enough =>
        injection planted with same
        rw [← same, forestPreorder, preorder, List.length_take_of_le enough, List.cons_append,
          ← forestPreorder_append, List.take_append_drop, ih before]
      next => simp at planted

theorem ofPreorder?_preorder (tree : Tree) : ofPreorder? tree.preorder = some tree := by
  have read := forestOfPreorder?_preorder_append tree [] [] rfl
  rw [List.append_nil] at read
  simp only [ofPreorder?, read]

theorem preorder_of_ofPreorder? {entries : List Entry} {tree : Tree}
    (read : ofPreorder? entries = some tree) : tree.preorder = entries := by
  rw [ofPreorder?] at read
  split at read
  next only single =>
    injection read with same
    have whole := forestPreorder_of_forestOfPreorder? single
    rwa [forestPreorder, forestPreorder, List.append_nil, same] at whole
  next => simp at read

end Tree

end ConcreteSyntax
