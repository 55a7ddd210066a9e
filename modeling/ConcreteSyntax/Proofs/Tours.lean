import ConcreteSyntax.Proofs.Confinement
import ConcreteSyntax.Proofs.Dump

/-!
Dumps that move one cursor in place.

The writer of an object hands its cursor on from call to call. Here the cursor is part of the state,
together with all the places where calls have left it. Both programs write alike, whatever the sink
takes. The cursor comes back to where it started, and until then, or until the sink runs full, it
stays in the subtree of the node there.
-/

namespace ConcreteSyntax

namespace Cursor

def nextChild? (cursor : Cursor) : Option Cursor :=
  cursor.parent?.bind (·.childAt? (cursor.before.length + 1))

theorem nextChild?_onChild (parent : Cursor) (index : Fin parent.focus.children.length) :
    (parent.onChild index).nextChild? = parent.childAt? (index + 1) := by
  have position : (parent.onChild index).before.length = index := by
    rw [before_onChild, List.length_reverse, List.length_take]
    omega
  rw [nextChild?, parent?_onChild, Option.bind_some, position]

theorem sibling?_forward (cursor : Cursor) : cursor.sibling? .forward = cursor.nextChild? := by
  rcases Nat.eq_zero_or_pos cursor.depth with top | below
  · rw [sibling?_of_depth_zero top, nextChild?, parent?_of_depth_zero top, Option.bind_none]
  · obtain ⟨parent, index, rfl⟩ := exists_onChild below
    rw [sibling?_forward_onChild, nextChild?_onChild]

end Cursor

namespace CountingCursor

theorem perform_enter_all (cursor : CountingCursor) :
    cursor.perform (.enter .all) =
      .ofOption ((cursor.place.childAt? 0).map (cursor.inside .forward)) := by
  rw [← Cursor.child?_forward, ← Outcome.map_ofOption]
  rfl

theorem perform_proceed_all (cursor : CountingCursor) :
    cursor.perform (.proceed .all) =
      .ofOption (cursor.place.nextChild?.map (cursor.alongside .forward)) := by
  rw [← Cursor.sibling?_forward, ← Outcome.map_ofOption]
  rfl

/-- The second cursor stands in the subtree of the node of the first, and goes up through the
first. -/
def Encloses (entry place : CountingCursor) : Prop :=
  ∃ path, entry.place.node.nodeAt? path = some place.place.node ∧
    place.place.climb path.length = entry.place ∧ place.counts.drop path.length = entry.counts

theorem Encloses.refl (entry : CountingCursor) : entry.Encloses entry :=
  ⟨[], Node.nodeAt?_nil _, rfl, rfl⟩

theorem Encloses.onChild {entry parent : CountingCursor} (encloses : entry.Encloses parent)
    (index : Fin parent.place.focus.children.length) (count : Nat) :
    entry.Encloses ⟨parent.place.onChild index, count :: parent.counts⟩ := by
  obtain ⟨path, leads, climbs, counts⟩ := encloses
  refine ⟨path ++ [(index : Nat)], ?_, ?_, ?_⟩
  · obtain ⟨subtree, found, same⟩ := Option.map_eq_some_iff.mp leads
    rw [Node.nodeAt?, Tree.subtreeAt?_append, found]
    have focus : subtree = parent.place.focus := congrArg Node.subtree same
    rw [Cursor.node_onChild, Cursor.childNode, Option.bind_some, Tree.subtreeAt?, focus,
      List.getElem?_eq_getElem index.isLt, ← same]
    simp [Tree.subtreeAt?, Node.below]
  · rw [List.length_append, List.length_singleton, Cursor.climb, Cursor.parent?_onChild]
    exact climbs
  · rw [List.length_append, List.length_singleton, List.drop_succ_cons]
    exact counts

end CountingCursor

namespace Json

open Document

structure Tour where
  cursor : CountingCursor
  /-- Where each call has left the cursor, the latest first. -/
  visited : List CountingCursor
  sink : Sink

abbrev Touring := EStateM SinkError Tour

namespace Touring

def standing : Touring CountingCursor := fun tour => .ok tour.cursor tour

def writing (program : Write Unit) : Touring Unit := fun tour =>
  match program.run tour.sink with
  | .ok _ after => .ok () { tour with sink := after }
  | .error error after => .error error { tour with sink := after }

def call (move : CursorCall) : Touring Bool := fun tour =>
  let outcome := tour.cursor.perform move
  let cursor := outcome.place tour.cursor
  .ok outcome.isFound { tour with cursor, visited := cursor :: tour.visited }

end Touring

open Touring

def tourChildren (program : Touring Unit) : Touring Unit := do
  let entered ← call (.enter .all)
  if entered then do
    program
    let _ ← call .parent
    pure ()
  else pure ()

mutual

def tourTree (style : Style) (source : Option (Array UInt8)) : Tree → Touring Unit
  | .node _ children => do
      let cursor ← standing
      let level := cursor.place.depth + 1
      writing (Sink.write [0x7B])
      writing (writeTexts style level true (ownTexts style source cursor.place))
      tourChildren (tourForest style source level 0 children)
      writing (Sink.write [0x0A])
      writing (writeIndent style (level - 1))
      writing (Sink.write [0x7D])

def tourForest (style : Style) (source : Option (Array UInt8)) (level index : Nat) :
    List Tree → Touring Unit
  | [] => pure ()
  | tree :: rest => do
      writing (writeKey style level false (toString index))
      let child ← standing
      (if child.place.node.isNamed then tourTree style source tree
        else writing (writeString (octets child.place.node.label.kind)))
      let moved ← call (.proceed .all)
      if moved then tourForest style source level (index + 1) rest else pure ()

end

def tourObject (style : Style) (source : Option (Array UInt8)) : Touring Unit := do
  let cursor ← standing
  tourTree style source cursor.place.focus

/-- The results of two programs that have written the same. The first has ended on the cursor
`last`, or has failed anywhere below `entry`, and on the way it has been only below `entry`. -/
inductive Alike {Value : Type} (entry : CountingCursor) (visited : List CountingCursor)
    (last : CountingCursor) (value : Value) :
    EStateM.Result SinkError Tour Unit → EStateM.Result SinkError Sink Value → Prop
  | done (more : List CountingCursor) (after : Sink) :
      (∀ place ∈ more, entry.Encloses place) →
      Alike entry visited last value (.ok () ⟨last, more ++ visited, after⟩) (.ok value after)
  | failed (stopped : CountingCursor) (more : List CountingCursor) (error : SinkError)
      (after : Sink) :
      entry.Encloses stopped → (∀ place ∈ more, entry.Encloses place) →
      Alike entry visited last value (.error error ⟨stopped, more ++ visited, after⟩)
        (.error error after)

/-- From the cursor `start`, the first program does in place what the second does. -/
def Follows {Value : Type} (entry : CountingCursor) (program : Touring Unit)
    (writer : Write Value) (start last : CountingCursor) (value : Value) : Prop :=
  ∀ visited sink, Alike entry visited last value (program.run ⟨start, visited, sink⟩)
    (writer.run sink)

section

variable {First Second : Type} {entry start middle last : CountingCursor}
  {program next : Touring Unit} {writer : Write First} {value : First} {given : Second}

theorem Alike.extend {more visited : List CountingCursor}
    {left : EStateM.Result SinkError Tour Unit} {right : EStateM.Result SinkError Sink First}
    (alike : Alike entry (more ++ visited) last value left right)
    (stays : ∀ place ∈ more, entry.Encloses place) :
    Alike entry visited last value left right := by
  have both {later : List CountingCursor} (further : ∀ place ∈ later, entry.Encloses place) :
      ∀ place ∈ later ++ more, entry.Encloses place := by
    intro place member
    rcases List.mem_append.mp member with after | before
    · exact further place after
    · exact stays place before
  cases alike with
  | done later after further =>
      rw [← List.append_assoc]
      exact .done _ _ (both further)
  | failed stopped later error after here further =>
      rw [← List.append_assoc]
      exact .failed _ _ _ _ here (both further)

theorem follows_bind {further : First → Write Second}
    (begins : Follows entry program writer start middle value)
    (continues : Follows entry next (further value) middle last given) :
    Follows entry (do program; next) (writer >>= further) start last given := by
  intro visited sink
  change Alike entry visited last given
    (EStateM.bind program (fun _ => next) ⟨start, visited, sink⟩)
    (EStateM.bind writer further sink)
  have first := begins visited sink
  simp only [EStateM.run] at first
  rw [EStateM.bind, EStateM.bind]
  generalize program ⟨start, visited, sink⟩ = left at first ⊢
  generalize writer sink = right at first ⊢
  cases first with
  | done more after stays => exact (continues _ _).extend stays
  | failed stopped more error after here stays => exact .failed _ _ _ _ here stays

theorem follows_writing (here : entry.Encloses start) (program : Write Unit) :
    Follows entry (writing program) program start start () := by
  intro visited sink
  simp only [EStateM.run, writing]
  cases program sink with
  | ok value after => exact .done [] after (by simp)
  | error error after => exact .failed start [] error after here (by simp)

theorem follows_standing {next : CountingCursor → Touring Unit}
    (continues : Follows entry (next start) writer start last value) :
    Follows entry (standing >>= next) writer start last value :=
  continues

theorem follows_call {move : CursorCall} {next : Bool → Touring Unit}
    (stays : entry.Encloses ((start.perform move).place start))
    (continues : Follows entry (next (start.perform move).isFound) writer
      ((start.perform move).place start) last value) :
    Follows entry (call move >>= next) writer start last value := by
  intro visited sink
  refine (continues ([(start.perform move).place start] ++ visited) sink).extend ?_
  intro place member
  rw [List.mem_singleton.mp member]
  exact stays

theorem follows_pure (value : First) : Follows entry (pure ()) (pure value) start start value :=
  fun _ sink => .done [] sink (by simp)

theorem Follows.give (follows : Follows entry program writer start last value) (given : Second) :
    Follows entry program (writer >>= fun _ => pure given) start last given := by
  have both : Follows entry (program >>= fun _ => pure ()) (writer >>= fun _ => pure given) start
      last given := follows_bind follows (follows_pure given)
  rwa [bind_pure_unit] at both

end

section

variable {style : Style} {source : Option (Array UInt8)} {entry : CountingCursor}

theorem follows_tourChildren {program : Touring Unit} {writer : Cursor → Write Cursor}
    {parent : CountingCursor} (inside : entry.Encloses parent)
    (runs : ∀ (filled : 0 < parent.place.focus.children.length) (count : Nat),
      ∃ last, last.parent? = some parent ∧
        Follows entry program (writer (parent.place.onChild ⟨0, filled⟩))
          ⟨parent.place.onChild ⟨0, filled⟩, count :: parent.counts⟩ last last.place) :
    Follows entry (tourChildren program) (withChildren parent.place writer) parent parent
      parent.place := by
  rw [tourChildren, withChildren, Cursor.child?_forward]
  by_cases filled : 0 < parent.place.focus.children.length
  · have first := Cursor.childAt?_eq_some.mpr ⟨filled, rfl⟩
    have entered := parent.perform_enter_all
    rw [first] at entered ⊢
    obtain ⟨last, up, follows⟩ := runs filled _
    have goesUp : last.perform .parent = .found parent := by
      rw [CountingCursor.perform, up]
      rfl
    have above : last.place.parent? = some parent.place := by
      obtain ⟨place, found, same⟩ := Option.map_eq_some_iff.mp up
      rw [found, ← same]
    apply follows_call
    · rw [entered]
      exact inside.onChild ⟨0, filled⟩ _
    · rw [entered]
      refine follows_bind follows (follows_call ?_ ?_)
      · rw [goesUp]
        exact inside
      · rw [goesUp, above]
        exact follows_pure parent.place
  · have nothing := Cursor.childAt?_eq_none.mpr (Nat.le_of_not_lt filled)
    have entered := parent.perform_enter_all
    rw [nothing] at entered ⊢
    apply follows_call
    · rw [entered]
      exact inside
    · rw [entered]
      exact follows_pure parent.place

mutual

theorem follows_tourTree (tree : Tree) (cursor : CountingCursor) (inside : entry.Encloses cursor)
    (here : cursor.place.focus = tree) :
    Follows entry (tourTree style source tree) (writeTree style source cursor.place tree) cursor
      cursor cursor.place := by
  match tree with
  | .node label children =>
    rw [tourTree, writeTree]
    refine follows_standing (follows_bind (follows_writing inside _)
      (follows_bind (follows_writing inside _) (follows_bind ?_
        (follows_bind (follows_writing inside _) (follows_bind (follows_writing inside _)
          ((follows_writing inside _).give _))))))
    apply follows_tourChildren inside
    intro filled count
    have all : cursor.place.focus.children = children := by rw [here, Tree.children_node]
    exact follows_tourForest children cursor ⟨0, filled⟩ count inside all

theorem follows_tourForest {level : Nat} (trees : List Tree) (parent : CountingCursor)
    (index : Fin parent.place.focus.children.length) (count : Nat) (inside : entry.Encloses parent)
    (ahead : parent.place.focus.children.drop index = trees) :
    ∃ last, last.parent? = some parent ∧
      Follows entry (tourForest style source level index trees)
        (writeForest style source level index (parent.place.onChild index) trees)
        ⟨parent.place.onChild index, count :: parent.counts⟩ last last.place := by
  -- By induction on the children that are left. What stays the same is the parent, and with it the
  -- way up from wherever the loop ends. The counts of later children are as the steps make them.
  match trees with
  | [] =>
    have ended := List.drop_eq_nil_iff.mp ahead
    omega
  | tree :: rest =>
    rw [List.drop_eq_getElem_cons index.isLt] at ahead
    injection ahead with here others
    let child : CountingCursor := ⟨parent.place.onChild index, count :: parent.counts⟩
    have below : entry.Encloses child := inside.onChild index count
    have value : Follows entry
        (if child.place.node.isNamed then tourTree style source tree
          else writing (writeString (octets child.place.node.label.kind)))
        (if child.place.node.isNamed then writeTree style source child.place tree
          else writeKind child.place) child child child.place := by
      cases child.place.node.isNamed with
      | true => exact follows_tourTree tree child below here
      | false => exact (follows_writing below _).give child.place
    have goes := child.perform_proceed_all
    have step := child.place.sibling?_forward
    rw [parent.place.nextChild?_onChild index] at goes step
    rw [tourForest, writeForest]
    by_cases more : (index : Nat) + 1 < parent.place.focus.children.length
    · rw [Cursor.childAt?_eq_some.mpr ⟨more, rfl⟩] at goes step
      obtain ⟨last, up, follows⟩ :=
        follows_tourForest rest parent ⟨index + 1, more⟩ _ inside others
      refine ⟨last, up, follows_bind (follows_writing below _) (follows_standing
        (follows_bind value (follows_call ?_ ?_)))⟩
      · rw [goes]
        exact inside.onChild ⟨index + 1, more⟩ _
      · rw [goes, step]
        exact follows
    · rw [Cursor.childAt?_eq_none.mpr (Nat.le_of_not_lt more)] at goes step
      refine ⟨child, ?_, follows_bind (follows_writing below _) (follows_standing
        (follows_bind value (follows_call ?_ ?_)))⟩
      · rw [CountingCursor.parent?, Cursor.parent?_onChild]
        rfl
      · rw [goes]
        exact below
      · rw [goes, step]
        exact follows_pure child.place

end

end

theorem alike_tourObject (style : Style) (source : Option (Array UInt8)) (entry : CountingCursor)
    (sink : Sink) :
    Alike entry [] entry entry.place ((tourObject style source).run ⟨entry, [], sink⟩)
      ((writeObject style source entry.place).run sink) :=
  follows_tourTree entry.place.focus entry (.refl entry) rfl [] sink

theorem run_call_proceed (tour : Tour) :
    ∃ after, (call (.proceed .all)).run tour = .ok tour.cursor.place.nextChild?.isSome after ∧
      after.cursor.place = tour.cursor.place.nextChild?.getD tour.cursor.place := by
  let outcome := tour.cursor.perform (.proceed .all)
  have goes : outcome = .ofOption (tour.cursor.place.nextChild?.map
      (tour.cursor.alongside .forward)) := tour.cursor.perform_proceed_all
  have answer : outcome.isFound = tour.cursor.place.nextChild?.isSome := by
    rw [goes]
    cases tour.cursor.place.nextChild? <;> rfl
  refine ⟨{ tour with
    cursor := outcome.place tour.cursor
    visited := outcome.place tour.cursor :: tour.visited }, ?_, ?_⟩
  · rw [← answer]
    rfl
  · rw [goes]
    cases tour.cursor.place.nextChild? <;> rfl

/-- The writer of an object gives its cursor back, whatever the cursor has stood on: with the same
node, way up and counts, so that a step forward then goes on to the sibling after that node. It
succeeds where the sink has room for the text of the object. On its way, and where it fails, the
cursor is in the subtree of that node. -/
theorem writeObject_givesBack (style : Style) (source : Option (Array UInt8))
    (entry : CountingCursor) (sink : Sink) :
    let text := (ofNode style source entry.place.fieldName entry.place.node).render
      (octets style.indent) entry.place.depth
    ∃ tour : Tour, (∀ place ∈ tour.cursor :: tour.visited, entry.Encloses place) ∧
      if sink.room text = text then
        (tourObject style source).run ⟨entry, [], sink⟩ = .ok () tour ∧
          (writeObject style source entry.place).run sink = .ok entry.place tour.sink ∧
          tour.cursor = entry ∧
          ∃ after, (call (.proceed .all)).run tour = .ok entry.place.nextChild?.isSome after ∧
            after.cursor.place = entry.place.nextChild?.getD entry.place
      else
        (tourObject style source).run ⟨entry, [], sink⟩ = .error .full tour ∧
          (writeObject style source entry.place).run sink = .error .full tour.sink := by
  intro text
  -- The writer alone tells whether the sink is full, and the program in place follows it.
  have writes : (writeObject style source entry.place).run sink =
      if (sink.room text).length < text.length then .error .full (sink.append (sink.room text))
      else .ok entry.place (sink.append text) := emits_writeObject style source entry.place sink
  have alike := alike_tourObject style source entry sink
  by_cases fits : sink.room text = text
  · rw [if_neg (by rw [fits]; exact Nat.lt_irrefl _)] at writes
    rw [writes] at alike ⊢
    generalize (tourObject style source).run ⟨entry, [], sink⟩ = result at alike ⊢
    cases alike with
    | done more _ stays =>
        refine ⟨⟨entry, more ++ [], sink.append text⟩, ?_, ?_⟩
        · rw [List.append_nil]
          exact List.forall_mem_cons.mpr ⟨.refl entry, stays⟩
        · rw [if_pos fits]
          exact ⟨rfl, rfl, rfl, run_call_proceed _⟩
  · rw [if_pos (Nat.lt_of_not_le fun enough => fits (sink.room_eq_self text (by omega)))] at writes
    rw [writes] at alike ⊢
    generalize (tourObject style source).run ⟨entry, [], sink⟩ = result at alike ⊢
    cases alike with
    | failed stopped more _ _ here stays =>
        refine ⟨⟨stopped, more ++ [], sink.append (sink.room text)⟩, ?_, ?_⟩
        · rw [List.append_nil]
          exact List.forall_mem_cons.mpr ⟨here, stays⟩
        · rw [if_neg fits]
          exact ⟨rfl, rfl⟩

theorem quotedCall_givesBack :
    let call := quotedCall.walkCounting
    let name := (call.enter .named).place call
    ∃ tour after, (tourObject .standard none).run ⟨name, [], .empty none⟩ = .ok () tour ∧
      tour.cursor = name ∧ (Touring.call (.proceed .all)).run tour = .ok true after ∧
      after.cursor.place.steps = [2] := by
  intro call name
  obtain ⟨tour, _, outcome⟩ := writeObject_givesBack .standard none name (.empty none)
  have unlimited (data : List UInt8) : (Sink.empty none).room data = data := rfl
  rw [if_pos (unlimited _)] at outcome
  obtain ⟨done, _, back, after, goes, place⟩ := outcome
  refine ⟨tour, after, done, back, goes, ?_⟩
  rw [place]
  rfl

end Json

end ConcreteSyntax
