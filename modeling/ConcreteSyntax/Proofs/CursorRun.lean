import ConcreteSyntax.Cursor.Count
import ConcreteSyntax.Proofs.Addresses
import ConcreteSyntax.Proofs.Pass

/-!
Sequences of calls on a cursor, and what all of them preserve.

A cursor stays below its root: it is the walk from there, or it stands on a child of a cursor that
is itself below the root. At each of these levels it holds a count, which is the true one as long
as no step backward has been taken among the siblings there. After one, what is said of cursors
holds whatever number stands in place of the count, unless that number is asked to be the one that
the moves leave.
-/

namespace ConcreteSyntax

inductive CursorCall where
  | parent
  | enter (order : Traversal)
  | proceed (order : Traversal)
  | descendant (index : Nat)
  | firstChildPastByte (byte : Nat)
  | firstChildPastPoint (point : Point)

namespace CursorCall

/-- The calls of one move of the engine. A named move is a loop of such moves. -/
def isPlain : CursorCall → Bool
  | enter order => !order.namedOnly
  | proceed order => !order.namedOnly
  | _ => true

end CursorCall

namespace CountingCursor

def perform (cursor : CountingCursor) : CursorCall → Outcome CountingCursor
  | .parent => .ofOption cursor.parent?
  | .enter order => cursor.enter order
  | .proceed order => cursor.proceed order
  | .descendant index => .found (cursor.descendant index)
  | .firstChildPastByte byte => .ofOption ((cursor.firstChildPastByte? byte).map (·.2))
  | .firstChildPastPoint point => .ofOption ((cursor.firstChildPastPoint? point).map (·.2))

/-- For each node on the way, the nearest first, whether a step backward has been taken among its
siblings since the cursor came to them: what a call that has led to `after` makes of it. -/
def marksAt (cursor after : CountingCursor) (marks : List Bool) : CursorCall → List Bool
  | .parent => marks.tail
  | .enter order => decide (order.direction = .backward ∧ ¬after.place.isLast) :: marks
  | .proceed order => (order.direction = .backward || marks.headD false) :: marks.tail
  | .descendant index =>
      let kept := (cursor.turn index).place.depth
      List.replicate (after.place.depth - kept) false ++ marks.drop (cursor.place.depth - kept)
  | .firstChildPastByte _ => false :: marks
  | .firstChildPastPoint _ => false :: marks

def marksAfter (cursor : CountingCursor) (marks : List Bool) (call : CursorCall) : List Bool :=
  match (cursor.perform call).moved? with
  | some after => cursor.marksAt after marks call
  | none => marks

end CountingCursor

/-- What stands for a count that a step backward has lost: the number that the moves leave, or any
other. -/
inductive LostCount where
  | byMoves
  | any

/-- The cursors that calls lead to, with the root of each and the marks of its way. A copy of a
cursor is the cursor itself. If lost counts may be any, another number can come to stand for the one
that a step backward has left. -/
inductive Reached (lost : LostCount) : Node → List Bool → CountingCursor → Prop
  | walk (root : Node) : Reached lost root [] root.walkCounting
  | call {root : Node} {marks : List Bool} {cursor : CountingCursor} (call : CursorCall) :
      Reached lost root marks cursor →
      Reached lost root (cursor.marksAfter marks call) ((cursor.perform call).place cursor)
  | reset {root : Node} {marks : List Bool} {cursor : CountingCursor} (node : Node) :
      Reached lost root marks cursor → Reached lost node [] (cursor.reset node)
  | resetTo {root otherRoot : Node} {marks otherMarks : List Bool}
      {cursor other : CountingCursor} :
      Reached lost root marks cursor → Reached lost otherRoot otherMarks other →
      Reached lost otherRoot otherMarks (cursor.resetTo other)
  | recount {root : Node} {marks : List Bool} {place : Cursor} {count : Nat} {counts : List Nat}
      (free : lost = .any) (other : Nat) :
      Reached lost root (true :: marks) ⟨place, count :: counts⟩ →
      Reached lost root (true :: marks) ⟨place, other :: counts⟩

/-- The count of a node that comes after the siblings `passed` under a parent with the count
`above`. Where a step backward has lost it, the number that the moves leave is too low. -/
def CountKept (lost : LostCount) (above : Nat) (passed : List Tree) (count : Nat) : Bool → Prop
  | false => count = above + 1 + Tree.forestSize passed
  | true => lost = .byMoves → count ≤ Tree.forestSize passed

theorem CountKept.onward {lost : LostCount} {above count : Nat} {passed further : List Tree}
    {mark : Bool} (kept : CountKept lost above passed count mark)
    (ordered : Tree.forestSize passed ≤ Tree.forestSize further) :
    CountKept lost above further (count + (Tree.forestSize further - Tree.forestSize passed))
      mark := by
  cases mark with
  | false =>
      simp only [CountKept] at kept ⊢
      omega
  | true =>
      intro moves
      have low := kept moves
      omega

/-- A cursor below its root, at any level: it stands on the root, or on a child of a cursor that is
itself kept below the root. -/
inductive Kept (lost : LostCount) (root : Node) : List Bool → CountingCursor → Prop
  | root : Kept lost root [] root.walkCounting
  | child {marks : List Bool} {parent : CountingCursor} (above : Kept lost root marks parent)
      (index : Fin parent.place.focus.children.length) (mark : Bool) (count : Nat)
      (counted : CountKept lost parent.count (parent.place.focus.children.take index) count mark) :
      Kept lost root (mark :: marks) ⟨parent.place.onChild index, count :: parent.counts⟩

theorem Cursor.before_onChild (parent : Cursor) (index : Fin parent.focus.children.length) :
    (parent.onChild index).before = (parent.focus.children.take index).reverse := rfl

namespace CountingCursor

theorem of_moved?_enter {cursor after : CountingCursor} {order : Traversal}
    (moved : (cursor.enter order).moved? = some after) :
    ∃ index, after = cursor.inside order.direction (cursor.place.onChild index) := by
  rw [enter, Cursor.enter_eq, Outcome.map_map, Outcome.moved?_map, Option.map_eq_some_iff] at moved
  obtain ⟨index, _, same⟩ := moved
  exact ⟨index, same.symm⟩

theorem of_moved?_proceed {parent : Cursor} {index : Fin parent.focus.children.length}
    {counts : List Nat} {after : CountingCursor} {order : Traversal}
    (moved : (CountingCursor.proceed ⟨parent.onChild index, counts⟩ order).moved? = some after) :
    ∃ other, order.direction.Past index other ∧
      after = alongside ⟨parent.onChild index, counts⟩ order.direction (parent.onChild other) := by
  rw [proceed, Cursor.proceed_onChild, Outcome.map_map, Outcome.moved?_map,
    Option.map_eq_some_iff] at moved
  obtain ⟨other, sought, same⟩ := moved
  exact ⟨other, (mem_routeFrom index other _).mp (Outcome.mem_of_moved?_seek sought), same.symm⟩

theorem descendant_eq_or (cursor : CountingCursor) (index : Nat) :
    cursor.descendant index = cursor.turn index ∨
      ∃ path, (cursor.turn index).follow? path = some (cursor.descendant index) := by
  simp only [descendant]
  cases found : ((cursor.turn index).place.focus.pathAt?
      (wrap index - (cursor.turn index).count)).bind (cursor.turn index).follow? with
  | none => exact Or.inl rfl
  | some after =>
      obtain ⟨path, _, followed⟩ := Option.bind_eq_some_iff.mp found
      exact Or.inr ⟨path, followed⟩

end CountingCursor

namespace Kept

variable {lost : LostCount} {root : Node} {marks : List Bool} {cursor after : CountingCursor}

theorem parent? (kept : Kept lost root marks cursor) (up : cursor.parent? = some after) :
    Kept lost root marks.tail after := by
  cases kept with
  | root => contradiction
  | child above index mark count counted =>
      rw [CountingCursor.parent?, Cursor.parent?_onChild] at up
      rw [← Option.some_inj.mp up]
      exact above

theorem inside (kept : Kept lost root marks cursor) (direction : Direction)
    (index : Fin cursor.place.focus.children.length) :
    Kept lost root (decide (direction = .backward ∧ ¬(cursor.place.onChild index).isLast) :: marks)
      (cursor.inside direction (cursor.place.onChild index)) := by
  refine Kept.child kept index _ _ ?_
  rw [Cursor.before_onChild, Tree.forestSize_reverse]
  by_cases backward : direction = .backward ∧ ¬(cursor.place.onChild index).isLast
  · rw [if_pos backward, decide_eq_true backward]
    exact fun _ => Nat.zero_le _
  · rw [if_neg backward, decide_eq_false backward]
    rfl

theorem enter (kept : Kept lost root marks cursor) {order : Traversal}
    (moved : (cursor.enter order).moved? = some after) :
    Kept lost root (decide (order.direction = .backward ∧ ¬after.place.isLast) :: marks) after := by
  obtain ⟨index, rfl⟩ := CountingCursor.of_moved?_enter moved
  exact kept.inside order.direction index

theorem proceed (kept : Kept lost root marks cursor) {order : Traversal}
    (moved : (cursor.proceed order).moved? = some after) :
    Kept lost root ((order.direction = .backward || marks.headD false) :: marks.tail) after := by
  cases kept with
  | root =>
      rw [CountingCursor.proceed, Cursor.proceed_of_depth_zero rfl] at moved
      contradiction
  | @child marks parent above index mark count counted =>
      obtain ⟨other, past, rfl⟩ := CountingCursor.of_moved?_proceed moved
      refine Kept.child above other _ _ ?_
      cases heading : order.direction with
      | backward => simp [CountKept]
      | forward =>
          rw [heading] at past
          have passed := Tree.forestSize_take_mono parent.place.focus.children
            (Nat.le_of_lt past)
          simp only [Cursor.before_onChild, Tree.forestSize_reverse]
          exact counted.onward passed

theorem childAt? (kept : Kept lost root marks cursor) {index : Nat}
    (found : cursor.childAt? index = some after) :
    Kept lost root (false :: marks) after ∧ after.place.steps = cursor.place.steps ++ [index] := by
  rw [CountingCursor.childAt?, Option.map_eq_some_iff] at found
  obtain ⟨child, here, rfl⟩ := found
  obtain ⟨bound, rfl⟩ := Cursor.childAt?_eq_some.mp here
  exact ⟨kept.inside .forward ⟨index, bound⟩, Cursor.steps_onChild _ _⟩

theorem ascend (kept : Kept lost root marks cursor) (index levels : Nat) :
    ∃ passed, (cursor.ascend index levels).place.depth + passed = cursor.place.depth ∧
      Kept lost root (marks.drop passed) (cursor.ascend index levels) := by
  induction levels generalizing cursor marks with
  | zero => exact ⟨0, rfl, kept⟩
  | succ levels ih =>
      rw [CountingCursor.ascend]
      split
      · exact ⟨0, rfl, kept⟩
      · cases kept with
        | root => exact ⟨0, rfl, .root⟩
        | @child marks parent above position mark count counted =>
            obtain ⟨passed, depth, higher⟩ := ih above
            simp only [CountingCursor.parent?, Cursor.parent?_onChild, Option.map_some,
              List.tail_cons]
            refine ⟨passed + 1, ?_, by rwa [List.drop_succ_cons]⟩
            rw [Cursor.depth_onChild, ← depth]
            rfl

theorem follow? (kept : Kept lost root marks cursor) {path : List Nat}
    (found : cursor.follow? path = some after) :
    Kept lost root (List.replicate path.length false ++ marks) after ∧
      after.place.steps = cursor.place.steps ++ path := by
  induction path generalizing cursor marks with
  | nil =>
      rw [← Option.some_inj.mp found]
      exact ⟨kept, (List.append_nil _).symm⟩
  | cons index path ih =>
      rw [CountingCursor.follow?, Option.bind_eq_some_iff] at found
      obtain ⟨child, entered, onward⟩ := found
      obtain ⟨keptChild, stepsChild⟩ := kept.childAt? entered
      obtain ⟨keptAfter, stepsAfter⟩ := ih keptChild onward
      constructor
      · rwa [List.length_cons, List.replicate_succ', List.append_assoc]
      · rw [stepsAfter, stepsChild, List.append_assoc]
        rfl

theorem turn (kept : Kept lost root marks cursor) (index : Nat) :
    ∃ passed, (cursor.turn index).place.depth + passed = cursor.place.depth ∧
      Kept lost root (marks.drop passed) (cursor.turn index) :=
  kept.ascend (wrap index) cursor.place.depth

theorem descendant (kept : Kept lost root marks cursor) (index : Nat) :
    Kept lost root (cursor.marksAt (cursor.descendant index) marks (.descendant index))
      (cursor.descendant index) := by
  obtain ⟨passed, depth, keptTurn⟩ := kept.turn index
  have dropped : cursor.place.depth - (cursor.turn index).place.depth = passed := by
    rw [← depth, Nat.add_sub_cancel_left]
  rw [CountingCursor.marksAt, dropped]
  rcases cursor.descendant_eq_or index with stayed | ⟨path, followed⟩
  · rw [stayed, Nat.sub_self]
    exact keptTurn
  · obtain ⟨keptAfter, steps⟩ := keptTurn.follow? followed
    have deeper : (cursor.descendant index).place.depth - (cursor.turn index).place.depth =
        path.length := by
      rw [← Cursor.length_steps, steps, List.length_append, Cursor.length_steps,
        Nat.add_sub_cancel_left]
    rwa [deeper]

theorem firstChildPast? (kept : Kept lost root marks cursor) {byte : Nat} {point : Point}
    (found : (cursor.place.firstChildPast? byte point).map
      (fun past => cursor.inside .forward past.2) = some after) :
    Kept lost root (false :: marks) after := by
  obtain ⟨⟨index, entered⟩, past, rfl⟩ := Option.map_eq_some_iff.mp found
  rw [Cursor.firstChildPast?, Option.bind_eq_some_iff] at past
  obtain ⟨position, _, leads⟩ := past
  obtain ⟨other, here, same⟩ := Option.map_eq_some_iff.mp leads
  injection same with _ same
  subst same
  obtain ⟨bound, rfl⟩ := Cursor.childAt?_eq_some.mp here
  exact kept.inside .forward ⟨position, bound⟩

theorem perform (kept : Kept lost root marks cursor) (call : CursorCall) :
    Kept lost root (cursor.marksAfter marks call) ((cursor.perform call).place cursor) := by
  rw [CountingCursor.marksAfter, Outcome.place_eq]
  cases moved : (cursor.perform call).moved? with
  | none => exact kept
  | some after =>
      simp only [Option.getD_some]
      cases call with
      | parent =>
          rw [CountingCursor.perform, Outcome.moved?_ofOption] at moved
          exact kept.parent? moved
      | enter order => exact kept.enter moved
      | proceed order => exact kept.proceed moved
      | descendant index =>
          rw [← Option.some_inj.mp moved]
          exact kept.descendant index
      | firstChildPastByte byte =>
          rw [CountingCursor.perform, Outcome.moved?_ofOption,
            CountingCursor.firstChildPastByte?, Option.map_map] at moved
          exact kept.firstChildPast? moved
      | firstChildPastPoint point =>
          rw [CountingCursor.perform, Outcome.moved?_ofOption,
            CountingCursor.firstChildPastPoint?, Option.map_map] at moved
          exact kept.firstChildPast? moved

theorem recount {place : Cursor} {count : Nat} {counts : List Nat}
    (kept : Kept lost root (true :: marks) ⟨place, count :: counts⟩) (free : lost = .any)
    (other : Nat) : Kept lost root (true :: marks) ⟨place, other :: counts⟩ := by
  cases kept with
  | child above index mark count counted =>
      refine .child above index true other fun moves => ?_
      rw [free] at moves
      contradiction

end Kept

theorem Reached.kept {lost : LostCount} {root : Node} {marks : List Bool}
    {cursor : CountingCursor} (reached : Reached lost root marks cursor) :
    Kept lost root marks cursor := by
  induction reached with
  | walk root => exact .root
  | call call _ ih => exact ih.perform call
  | reset node _ _ => exact .root
  | resetTo _ _ _ ih => exact ih
  | recount free other _ ih => exact ih.recount free other

end ConcreteSyntax
