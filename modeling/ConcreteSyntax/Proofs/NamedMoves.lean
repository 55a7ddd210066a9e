import ConcreteSyntax.Proofs.Children

/-!
What the named moves of a cursor do: where they end, what they answer, and what they leave as it
was.

A named move is a search over the numbers of the children that are ahead, the nearest first, so
each of its outcomes says how those numbers split.
-/

namespace ConcreteSyntax

/-- What a named move does that goes over the children of `parent` that are `ahead`. It ends on the
nearest that is named. If none of them is, it fails but is left on the farthest, and if there are
none at all it does not move. -/
structure NamedEffect (parent : Cursor) (direction : Direction)
    (ahead : Fin parent.focus.children.length → Prop) (outcome : Outcome Cursor) : Prop where
  found : (∃ index, ahead index ∧ (parent.childNode index).isNamed) →
    ∃ nearest, ahead nearest ∧ (parent.childNode nearest).isNamed ∧
      (∀ index, ahead index → (parent.childNode index).isNamed →
        index = nearest ∨ direction.Past nearest index) ∧
      outcome = .found (parent.onChild nearest)
  landed : (∀ index, ahead index → ¬(parent.childNode index).isNamed) → (∃ index, ahead index) →
    ∃ farthest, ahead farthest ∧
      (∀ index, ahead index → index = farthest ∨ direction.Past index farthest) ∧
      outcome = .landed (parent.onChild farthest)
  unmoved : (∀ index, ¬ahead index) → outcome = .unmoved

theorem namedEffect_of_seek {parent : Cursor} {direction : Direction}
    {ahead : Fin parent.focus.children.length → Prop}
    {places : List (Fin parent.focus.children.length)}
    (covers : ∀ index, index ∈ places ↔ ahead index)
    (sorted : places.Pairwise direction.Past) :
    NamedEffect parent direction ahead
      ((Outcome.seek (fun index => (parent.childNode index).isNamed) places).map
        parent.onChild) := by
  cases sought : Outcome.seek (fun index => (parent.childNode index).isNamed) places with
  | found nearest =>
      obtain ⟨named, passed, rest, split, refused⟩ := Outcome.seek_eq_found_iff.mp sought
      have member : nearest ∈ places := by simp [split]
      rw [split, List.pairwise_append, List.pairwise_cons] at sorted
      refine ⟨fun _ => ⟨nearest, (covers nearest).mp member, named, ?_, rfl⟩, ?_, ?_⟩
      · intro index isAhead isNamed
        have place := (covers index).mpr isAhead
        rw [split, List.mem_append, List.mem_cons] at place
        rcases place with before | same | after
        · rw [refused index before] at isNamed
          contradiction
        · exact Or.inl same
        · exact Or.inr (sorted.2.1.1 index after)
      · intro nothing _
        exact absurd named (nothing nearest ((covers nearest).mp member))
      · intro nothing
        exact absurd ((covers nearest).mp member) (nothing nearest)
  | landed farthest =>
      obtain ⟨refused, passed, split⟩ := Outcome.seek_eq_landed_iff.mp sought
      have member : farthest ∈ places := by simp [split]
      rw [split, List.pairwise_append] at sorted
      refine ⟨?_, fun _ _ => ⟨farthest, (covers farthest).mp member, ?_, rfl⟩, ?_⟩
      · rintro ⟨index, isAhead, isNamed⟩
        rw [refused index ((covers index).mpr isAhead)] at isNamed
        contradiction
      · intro index isAhead
        have place := (covers index).mpr isAhead
        rw [split, List.mem_append, List.mem_singleton] at place
        rcases place with before | same
        · exact Or.inr (sorted.2.2 index before farthest List.mem_cons_self)
        · exact Or.inl same
      · intro nothing
        exact absurd ((covers farthest).mp member) (nothing farthest)
  | unmoved =>
      have empty := Outcome.seek_eq_unmoved_iff.mp sought
      have nothing (index : Fin parent.focus.children.length) : ¬ahead index := by
        rw [← covers, empty]
        exact List.not_mem_nil
      refine ⟨?_, ?_, fun _ => rfl⟩
      · rintro ⟨index, isAhead, _⟩
        exact absurd isAhead (nothing index)
      · rintro _ ⟨index, isAhead⟩
        exact absurd isAhead (nothing index)

namespace Cursor

variable (parent : Cursor)

/-- The loop of a named move, from a node that a plain move has led to. -/
def seekOn (next : Cursor) (direction : Direction) : Outcome Cursor :=
  if next.node.isNamed then .found next
  else
    match next.namedSibling direction with
    | .unmoved => .landed next
    | outcome => outcome

theorem map_seek_cons (index : Fin parent.focus.children.length) (direction : Direction) :
    (Outcome.seek (fun index => (parent.childNode index).isNamed)
        (index :: routeFrom index direction)).map parent.onChild =
      (parent.onChild index).seekOn direction := by
  rw [Outcome.seek_cons, seekOn, namedSibling_onChild, node_onChild]
  split
  · rfl
  · cases Outcome.seek (fun index => (parent.childNode index).isNamed)
      (routeFrom index direction) <;> rfl

theorem namedChild_eq_loop (cursor : Cursor) (direction : Direction) :
    cursor.namedChild direction =
      ((cursor.child? direction).map (·.seekOn direction)).getD .unmoved := by
  rw [namedChild_eq, child?_eq]
  cases ahead : route cursor.focus.children.length direction with
  | nil => rfl
  | cons first rest =>
      have split : route cursor.focus.children.length direction = [] ++ first :: rest := ahead
      rw [← routeFrom_of_split split, map_seek_cons]
      rfl

theorem namedSibling_eq_loop (cursor : Cursor) (direction : Direction) :
    cursor.namedSibling direction =
      ((cursor.sibling? direction).map (·.seekOn direction)).getD .unmoved := by
  rcases Nat.eq_zero_or_pos cursor.depth with top | below
  · rw [namedSibling_of_depth_zero top, sibling?_of_depth_zero top]
    rfl
  · obtain ⟨parent, index, rfl⟩ := exists_onChild below
    rw [namedSibling_onChild, sibling?_onChild]
    cases ahead : routeFrom index direction with
    | nil => rfl
    | cons next rest =>
        have split : routeFrom index direction = [] ++ next :: rest := ahead
        rw [← routeFrom_of_routeFrom_split split, map_seek_cons]
        rfl

theorem seek_ends (places : List (Fin parent.focus.children.length)) (direction : Direction)
    (onward : ∀ passed index, places = passed ++ [index] → routeFrom index direction = []) :
    let outcome :=
      (Outcome.seek (fun index => (parent.childNode index).isNamed) places).map parent.onChild
    (∀ after, outcome.moved? = some after → ∃ index, after = parent.onChild index) ∧
      (outcome.isFound ↔ ∃ after, outcome.moved? = some after ∧ after.node.isNamed) ∧
      ∀ landing, outcome = .landed landing → landing.namedSibling direction = .unmoved := by
  cases sought : Outcome.seek (fun index => (parent.childNode index).isNamed) places with
  | found index =>
      have accepted := (Outcome.seek_eq_found_iff.mp sought).1
      refine ⟨fun after moved => ⟨index, (Option.some_inj.mp moved).symm⟩, ?_, ?_⟩
      · simpa [Outcome.map, Outcome.isFound, Outcome.moved?] using accepted
      · simp [Outcome.map]
  | landed index =>
      obtain ⟨refused, passed, split⟩ := Outcome.seek_eq_landed_iff.mp sought
      have anonymous := refused index (by simp [split])
      refine ⟨fun after moved => ⟨index, (Option.some_inj.mp moved).symm⟩, ?_, ?_⟩
      · simpa [Outcome.map, Outcome.isFound, Outcome.moved?] using anonymous
      · intro landing landed
        injection landed with same
        subst same
        rw [namedSibling_onChild, onward passed index split]
        rfl
  | unmoved => simp [Outcome.map, Outcome.isFound, Outcome.moved?]

/-- All that a named move does. Among the children it goes to the first named one in its direction,
and among the siblings likewise, unless the cursor is on its root, where it sees none. It keeps the
way up to their parent, and has found something just if it has come to a named node. Where it has
landed on another, its direction leads no further. It is the loop of plain moves up to a named
node. -/
theorem namedMoves_effect (cursor : Cursor) (direction : Direction) :
    NamedEffect cursor direction (fun _ => True) (cursor.namedChild direction) ∧
      (∀ after, (cursor.namedChild direction).moved? = some after →
        after.parent? = some cursor ∧ after.depth = cursor.depth + 1) ∧
      (cursor.depth = 0 → cursor.namedSibling direction = .unmoved) ∧
      (0 < cursor.depth → ∃ (parent : Cursor) (index : Fin parent.focus.children.length),
        cursor = parent.onChild index ∧
        NamedEffect parent direction (direction.Past index) (cursor.namedSibling direction)) ∧
      (∀ after, (cursor.namedSibling direction).moved? = some after →
        after.parent? = cursor.parent? ∧ after.depth = cursor.depth) ∧
      (∀ outcome ∈ [cursor.namedChild direction, cursor.namedSibling direction],
        (outcome.isFound ↔ ∃ after, outcome.moved? = some after ∧ after.node.isNamed) ∧
        ∀ landing, outcome = .landed landing → landing.namedSibling direction = .unmoved) ∧
      cursor.namedChild direction =
        ((cursor.child? direction).map (·.seekOn direction)).getD .unmoved ∧
      cursor.namedSibling direction =
        ((cursor.sibling? direction).map (·.seekOn direction)).getD .unmoved := by
  have children := cursor.seek_ends (route cursor.focus.children.length direction) direction
    fun _ _ split => routeFrom_of_split split
  rw [← namedChild_eq] at children
  have inside (after : Cursor) (moved : (cursor.namedChild direction).moved? = some after) :
      after.parent? = some cursor ∧ after.depth = cursor.depth + 1 := by
    obtain ⟨index, rfl⟩ := children.1 after moved
    exact ⟨parent?_onChild cursor index, depth_onChild cursor index⟩
  have childEffect :
      NamedEffect cursor direction (fun _ => True) (cursor.namedChild direction) := by
    rw [namedChild_eq]
    exact namedEffect_of_seek (fun index => by simp [mem_route]) (pairwise_route _ direction)
  rcases Nat.eq_zero_or_pos cursor.depth with top | below
  · have still := namedSibling_of_depth_zero top direction
    refine ⟨childEffect, inside, fun _ => still, fun below => absurd top (by omega), ?_, ?_,
      namedChild_eq_loop _ direction, namedSibling_eq_loop _ direction⟩
    · simp [still, Outcome.moved?]
    · simpa [still, Outcome.moved?, Outcome.isFound] using children.2
  · obtain ⟨parent, index, rfl⟩ := exists_onChild below
    have siblings := parent.seek_ends (routeFrom index direction) direction
      fun _ _ split => routeFrom_of_routeFrom_split split
    rw [← namedSibling_onChild] at siblings
    have siblingEffect : NamedEffect parent direction (direction.Past index)
        ((parent.onChild index).namedSibling direction) := by
      rw [namedSibling_onChild]
      exact namedEffect_of_seek (fun other => mem_routeFrom index other direction)
        (pairwise_routeFrom index direction).of_cons
    refine ⟨childEffect, inside, fun top => absurd below (by omega),
      fun _ => ⟨parent, index, rfl, siblingEffect⟩, ?_, ?_,
      namedChild_eq_loop _ direction, namedSibling_eq_loop _ direction⟩
    · intro after moved
      obtain ⟨other, rfl⟩ := siblings.1 after moved
      rw [parent?_onChild, parent?_onChild, depth_onChild, depth_onChild]
      exact ⟨rfl, rfl⟩
    · intro outcome member
      rcases List.mem_cons.mp member with same | last
      · subst same
        exact children.2
      · rw [List.mem_singleton.mp last]
        exact siblings.2

end Cursor

end ConcreteSyntax
