import ConcreteSyntax.Proofs.Confinement
import ConcreteSyntax.Proofs.NamedMoves
import ConcreteSyntax.Session

/-!
What moves leave in the log.

Of all that a session does, only a named move that fails on another node than it has started from
leaves a trace, and it leaves one. Such a move has two places for it: where its loop runs out of
siblings after a step, and where it has entered a child that has none ahead. It comes to one of them.
-/

namespace ConcreteSyntax

/-! Calls. -/

structure Attempt where
  named : Bool
  before : Cursor
  succeeded : Bool
  after : Cursor

namespace Attempt

/-- What a call has to leave in the log. -/
def landing (attempt : Attempt) : List Event :=
  if attempt.named && !attempt.succeeded && attempt.after.node != attempt.before.node then
    [.landed attempt.after.node.label.kind attempt.after.depth]
  else []

end Attempt

namespace CountingCursor

def attempt (cursor : CountingCursor) (call : CursorCall) : Attempt :=
  let outcome := cursor.perform call
  ⟨!call.isPlain, cursor.place, outcome.isFound, (outcome.place cursor).place⟩

def attemptsFor (cursor : CountingCursor) : CursorRequest → List Attempt
  | .parent => [cursor.attempt .parent]
  | .enter order => [cursor.attempt (.enter order)]
  | .proceed order => [cursor.attempt (.proceed order)]
  | .descendant index => [cursor.attempt (.descendant index)]
  | .firstChildPastByte byte => [cursor.attempt (.firstChildPastByte byte)]
  | .firstChildPastPoint point => [cursor.attempt (.firstChildPastPoint point)]
  | _ => []

end CountingCursor

namespace ChildIterator

def attempt (iterator : ChildIterator) (order : Traversal) : Attempt :=
  ⟨order.namedOnly, iterator.cursor, (iterator.next? order).isSome, (iterator.advance order).cursor⟩

def attempts (iterator : ChildIterator) (order : Traversal) : Nat → List Attempt
  | 0 => []
  | count + 1 =>
      iterator.attempt order ::
        if iterator.finds order then (iterator.advance order).attempts order count else []

def attemptsFor (iterator : ChildIterator) : IteratorRequest → List Attempt
  | .step order => [iterator.attempt order]
  | .steps order count => iterator.attempts order (count.getD iterator.room)
  | _ => []

end ChildIterator

def Node.attemptsFor (node : Node) : NodeQuery → List Attempt
  | .children => node.iterate.attempts .all node.iterate.room
  | .namedChildren => node.iterate.attempts .named node.iterate.room
  | .childrenByFieldName _ => node.iterate.attempts .all node.iterate.room
  | _ => []

namespace Session

/-- The calls of moves that a request comes to. One for a slot that is empty comes to none. -/
def attemptsFor (session : Session) : Request → List Attempt
  | .cursor slot (.ok request) =>
      (session.cursors.get? slot).toList.flatMap (·.attemptsFor request)
  | .iterator slot (.ok request) =>
      (session.iterators.get? slot).toList.flatMap (·.pass.attemptsFor request)
  | .node ref (.ok query) => (session.nodeAt ref).toOption.toList.flatMap (·.attemptsFor query)
  | _ => []

def attemptsAlong (session : Session) : List (Except Refusal Request) → List (List Attempt)
  | [] => []
  | request :: rest =>
      request.toOption.toList.flatMap session.attemptsFor ::
        (session.respond request).1.attemptsAlong rest

end Session

/-! A single move. -/

theorem Node.below_beq (node : Node) (index : Nat) (child : Tree) :
    (node.below index child == node) = false := by
  rw [Bool.eq_false_iff, ne_eq, beq_iff_identity]
  intro same
  have longer := congrArg (fun identity => identity.2.length) same
  simp [identity, below] at longer

theorem Node.below_beq_below (node : Node) {index other : Nat} (apart : other ≠ index)
    (first second : Tree) : (node.below other first == node.below index second) = false := by
  rw [Bool.eq_false_iff, ne_eq, beq_iff_identity]
  intro same
  simp only [identity, below, Prod.mk.injEq, List.append_cancel_left_eq, List.cons.injEq,
    and_true, true_and] at same
  exact apart same

namespace Outcome

/-- The move lands only if it is a named one, and on another node. -/
def LandsApart (named : Bool) (before : Cursor) (outcome : Outcome Cursor) : Prop :=
  ∀ after, outcome = .landed after → named ∧ (after.node == before.node) = false

theorem landsApart_ofOption (named : Bool) (before : Cursor) (place : Option Cursor) :
    (ofOption place).LandsApart named before := by
  intro after landed
  cases place <;> contradiction

theorem landsApart_of_seek {parent before : Cursor} {order : Traversal}
    {places : List (Fin parent.focus.children.length)}
    (apart : ∀ index ∈ places, ((parent.onChild index).node == before.node) = false) :
    LandsApart order.namedOnly before
      ((seek (fun index => !order.namedOnly || parent.isNamedChild index) places).map
        parent.onChild) := by
  intro after landed
  cases sought : seek (fun index => !order.namedOnly || parent.isNamedChild index) places with
  | found index => simp [sought, map] at landed
  | unmoved => simp [sought, map] at landed
  | landed index =>
      rw [sought] at landed
      injection landed with same
      subst same
      obtain ⟨refused, passed, split⟩ := seek_eq_landed_iff.mp sought
      have last : index ∈ places := by simp [split]
      have anonymous := refused index last
      simp only [Bool.or_eq_false_iff, Bool.not_eq_false'] at anonymous
      exact ⟨anonymous.1, apart index last⟩

theorem LandsApart.events {named : Bool} {before : Cursor} {outcome : Outcome Cursor}
    (lands : outcome.LandsApart named before) :
    outcome.events = Attempt.landing ⟨named, before, outcome.isFound, outcome.place before⟩ := by
  cases outcome with
  | found after => simp [Outcome.events, landed?, Attempt.landing, isFound]
  | unmoved => simp [Outcome.events, landed?, Attempt.landing, place, bne]
  | landed after =>
      obtain ⟨isNamed, apart⟩ := lands after rfl
      simp only [Attempt.landing, isNamed, isFound, place, bne, apart, Bool.not_false,
        Bool.and_self, ↓reduceIte]
      rfl

theorem events_of_isFound {outcome : Outcome Cursor} (found : outcome.isFound = true) :
    outcome.events = [] := by
  cases outcome with
  | found after => rfl
  | _ => contradiction

end Outcome

namespace Cursor

theorem landsApart_enter (cursor : Cursor) (order : Traversal) :
    (cursor.enter order).LandsApart order.namedOnly cursor := by
  rw [enter_eq]
  apply Outcome.landsApart_of_seek
  intro index _
  rw [node_onChild]
  exact cursor.node.below_beq index _

theorem landsApart_proceed (cursor : Cursor) (order : Traversal) :
    (cursor.proceed order).LandsApart order.namedOnly cursor := by
  rcases Nat.eq_zero_or_pos cursor.depth with top | below
  · rw [proceed_of_depth_zero top]
    exact Outcome.landsApart_ofOption _ _ none
  · obtain ⟨parent, index, rfl⟩ := exists_onChild below
    rw [proceed_onChild]
    apply Outcome.landsApart_of_seek
    intro other member
    have past := (mem_routeFrom index other _).mp member
    rw [node_onChild, node_onChild]
    apply parent.node.below_beq_below
    intro same
    rw [Fin.ext same] at past
    exact past.asymm past

end Cursor

namespace CountingCursor

theorem map_place_enter (cursor : CountingCursor) (order : Traversal) :
    (cursor.enter order).map (·.place) = cursor.place.enter order := by
  rw [enter, Outcome.map_map]
  cases cursor.place.enter order <;> rfl

theorem map_place_proceed (cursor : CountingCursor) (order : Traversal) :
    (cursor.proceed order).map (·.place) = cursor.place.proceed order := by
  rw [proceed, Outcome.map_map]
  cases cursor.place.proceed order <;> rfl

theorem landsApart_perform (cursor : CountingCursor) (call : CursorCall) :
    ((cursor.perform call).map (·.place)).LandsApart (!call.isPlain) cursor.place := by
  cases call with
  | enter order =>
      rw [perform, map_place_enter, CursorCall.isPlain, Bool.not_not]
      exact cursor.place.landsApart_enter order
  | proceed order =>
      rw [perform, map_place_proceed, CursorCall.isPlain, Bool.not_not]
      exact cursor.place.landsApart_proceed order
  | descendant index => exact Outcome.landsApart_ofOption _ _ (some _)
  | _ =>
      rw [perform, Outcome.map_ofOption]
      exact Outcome.landsApart_ofOption _ _ _

theorem events_perform (cursor : CountingCursor) (call : CursorCall) :
    ((cursor.perform call).map (·.place)).events = (cursor.attempt call).landing := by
  rw [(cursor.landsApart_perform call).events, attempt]
  cases cursor.perform call <;> rfl

end CountingCursor

namespace ChildIterator

theorem landsApart_move (iterator : ChildIterator) (order : Traversal) :
    (iterator.move order).LandsApart order.namedOnly iterator.cursor := by
  rw [move]
  split
  · exact iterator.cursor.landsApart_enter order
  · split
    · exact iterator.cursor.landsApart_proceed order
    · exact Outcome.landsApart_ofOption _ _ none

theorem events_move (iterator : ChildIterator) (order : Traversal) :
    (iterator.move order).events = (iterator.attempt order).landing := by
  have answers : (iterator.next? order).isSome = (iterator.move order).isFound := by
    rw [next?, finds]
    cases (iterator.move order).isFound <;> rfl
  rw [(iterator.landsApart_move order).events, attempt, answers]
  rfl

theorem events_run (iterator : ChildIterator) (order : Traversal) (bound : Nat) :
    (iterator.run order bound).landing.toList.map Event.ofLanding =
      (iterator.attempts order bound).flatMap Attempt.landing := by
  induction bound generalizing iterator with
  | zero => rfl
  | succ bound ih =>
      rw [run, attempts, List.flatMap_cons, ← events_move]
      by_cases found : iterator.finds order
      · have nothing : (iterator.move order).events = [] := Outcome.events_of_isFound found
        simp only [found, ↓reduceIte, nothing, List.nil_append, ih]
      · simp only [found, Bool.false_eq_true, ↓reduceIte, List.flatMap_nil, List.append_nil]
        rfl

theorem flatMap_landing_plain (iterator : ChildIterator) {order : Traversal}
    (plain : order.namedOnly = false) (bound : Nat) :
    (iterator.attempts order bound).flatMap Attempt.landing = [] := by
  induction bound generalizing iterator with
  | zero => rfl
  | succ bound ih =>
      have nothing : (iterator.attempt order).landing = [] := by
        simp [Attempt.landing, attempt, plain]
      rw [attempts, List.flatMap_cons, nothing, List.nil_append]
      split
      · exact ih _
      · rfl

end ChildIterator

/-! The loops of a named move, with their log. -/

namespace Cursor

def ahead (cursor : Cursor) : Direction → List Tree
  | .forward => (cursor.row?.map (·.after)).getD []
  | .backward => cursor.before

theorem length_ahead_lt {cursor next : Cursor} {direction : Direction}
    (step : cursor.sibling? direction = some next) :
    (next.ahead direction).length < (cursor.ahead direction).length := by
  rcases Nat.eq_zero_or_pos cursor.depth with top | below
  · rw [sibling?_of_depth_zero top] at step
    contradiction
  · obtain ⟨parent, index, rfl⟩ := exists_onChild below
    rw [sibling?_onChild, List.head?_map, Option.map_eq_some_iff] at step
    obtain ⟨other, first, rfl⟩ := step
    have past := (mem_routeFrom index other _).mp (List.mem_of_head? first)
    cases direction with
    | forward =>
        simp only [Direction.Past] at past
        simp only [ahead, row?_onChild, Option.map_some, Option.getD_some, Row.ofIndex,
          List.length_drop]
        omega
    | backward =>
        simp only [Direction.Past] at past
        simp only [ahead, before_onChild, List.length_reverse, List.length_take]
        omega

/-- The loop over the siblings. It logs where it has run out of them, if it has moved. -/
def seekLogging (cursor : Cursor) (direction : Direction) (moved : Bool) :
    Outcome Cursor × List Event :=
  match _ : cursor.sibling? direction with
  | some next =>
      if next.node.isNamed then (.found next, []) else next.seekLogging direction true
  | none => if moved then (.landed cursor, [.ofLanding cursor]) else (.unmoved, [])
termination_by (cursor.ahead direction).length
decreasing_by exact length_ahead_lt ‹_›

def enterLogging (cursor : Cursor) (direction : Direction) : Outcome Cursor × List Event :=
  match cursor.child? direction with
  | none => (.unmoved, [])
  | some child =>
      if child.node.isNamed then (.found child, [])
      else
        match child.seekLogging direction false with
        | (.unmoved, events) => (.landed child, events ++ [.ofLanding child])
        | sought => sought

theorem seekLogging_eq (cursor : Cursor) (direction : Direction) (moved : Bool) :
    cursor.seekLogging direction moved =
      match cursor.namedSibling direction with
      | .unmoved => if moved then (.landed cursor, [.ofLanding cursor]) else (.unmoved, [])
      | outcome => (outcome, outcome.events) := by
  -- after the first step the loop has moved, so the induction is for both values of the flag
  fun_induction seekLogging cursor direction moved with
  | case1 cursor moved next step named =>
      rw [namedSibling_eq_loop, step, Option.map_some, Option.getD_some, seekOn, if_pos named]
      rfl
  | case2 cursor moved next step anonymous ih =>
      rw [ih, namedSibling_eq_loop cursor, step, Option.map_some, Option.getD_some, seekOn,
        if_neg anonymous]
      cases next.namedSibling direction <;> rfl
  | case3 cursor last =>
      rw [namedSibling_eq_loop, last]
      rfl
  | case4 cursor moved last still =>
      rw [namedSibling_eq_loop, last]
      simp [still]

theorem seekLogging_false (cursor : Cursor) (direction : Direction) :
    cursor.seekLogging direction false =
      (cursor.namedSibling direction, (cursor.namedSibling direction).events) := by
  rw [seekLogging_eq]
  cases cursor.namedSibling direction <;> rfl

theorem enterLogging_eq (cursor : Cursor) (direction : Direction) :
    cursor.enterLogging direction =
      (cursor.namedChild direction, (cursor.namedChild direction).events) := by
  rw [enterLogging, namedChild_eq_loop]
  cases cursor.child? direction with
  | none => rfl
  | some child =>
      simp only [Option.map_some, Option.getD_some, seekOn, seekLogging_false]
      split
      · rfl
      · cases child.namedSibling direction <;> rfl

end Cursor

/-! Sessions. -/

namespace Event

def isTrace (event : Event) : Bool :=
  event.level = "TRACE"

theorem filter_isTrace_landings (places : List Cursor) :
    (places.map ofLanding).filter isTrace = places.map ofLanding :=
  List.filter_eq_self.mpr (by simp [ofLanding, isTrace, level])

end Event

theorem Outcome.filter_isTrace_events (outcome : Outcome Cursor) :
    outcome.events.filter Event.isTrace = outcome.events :=
  Event.filter_isTrace_landings _

namespace Session

def traces {Result : Type} (events : Result → List Event) : Except Refusal Result → List Event
  | .ok result => (events result).filter Event.isTrace
  | .error _ => []

theorem traces_bind {Given Result : Type} {events : Result → List Event}
    {given : Except Refusal Given} {next : Given → Except Refusal Result}
    (quiet : ∀ value, traces events (next value) = []) : traces events (given >>= next) = [] := by
  cases given with
  | ok value => exact quiet value
  | error refusal => rfl

theorem traces_answered (session : Session) (result : Except Refusal (Answer × List Event)) :
    traces Effect.events (do
      let (answer, events) ← result
      .ok ⟨session, answer, events⟩) = traces Prod.snd result := by
  cases result <;> rfl

theorem traces_answerNode (session : Session) (node : Node) (query : NodeQuery) :
    traces Prod.snd (session.answerNode node query) =
      (node.attemptsFor query).flatMap Attempt.landing := by
  cases query with
  | children => exact (node.iterate.flatMap_landing_plain rfl _).symm
  | namedChildren =>
      rw [Node.attemptsFor, ← ChildIterator.events_run]
      exact Event.filter_isTrace_landings _
  | childrenByFieldName name => exact (node.iterate.flatMap_landing_plain rfl _).symm
  | rawText source => exact traces_bind fun _ => rfl
  | _ => rfl

theorem traces_runCursor (session : Session) (slot : Nat) (cursor : CountingCursor)
    (request : CursorRequest) :
    traces Effect.events (session.runCursor slot cursor request) =
      (cursor.attemptsFor request).flatMap Attempt.landing := by
  have moved (call : CursorCall) :
      traces Effect.events (.ok (session.moveCursor slot cursor (cursor.perform call))) =
        [cursor.attempt call].flatMap Attempt.landing := by
    rw [List.flatMap_singleton, ← cursor.events_perform]
    exact Outcome.filter_isTrace_events _
  cases request with
  | parent => exact moved .parent
  | enter order => exact moved (.enter order)
  | proceed order => exact moved (.proceed order)
  -- the other moves are plain, and answer without events
  | descendant index => rfl
  | firstChildPastByte byte =>
      rw [runCursor]
      cases cursor.firstChildPastByte? byte <;> rfl
  | firstChildPastPoint point =>
      rw [runCursor]
      cases cursor.firstChildPastPoint? point <;> rfl
  | reset ref => exact traces_bind fun _ => rfl
  | resetTo other =>
      rw [runCursor]
      split
      · rfl
      · exact traces_bind fun _ => rfl
  | _ => rfl

theorem traces_runIterator (session : Session) (slot : Nat) (iterator : CountingIterator)
    (request : IteratorRequest) :
    traces Effect.events (session.runIterator slot iterator request) =
      (iterator.pass.attemptsFor request).flatMap Attempt.landing := by
  cases request with
  | step order =>
      rw [ChildIterator.attemptsFor, List.flatMap_singleton, ← iterator.pass.events_move]
      exact Outcome.filter_isTrace_events _
  | steps order count =>
      rw [ChildIterator.attemptsFor, ← iterator.pass.events_run]
      exact Event.filter_isTrace_landings _
  | _ => rfl

theorem filter_isTrace_dumpSeries (style : Json.Style) (source : Option (Array UInt8)) (sink : Sink)
    (nodes : List Node) : (dumpSeries style source sink nodes).2.filter Event.isTrace = [] := by
  induction nodes generalizing sink with
  | nil => rfl
  | cons node rest ih =>
      rw [dumpSeries]
      split
      · rfl
      · simp [ih, Event.isTrace, Event.level]

theorem traces_runDump (session : Session) (source : Option (Array UInt8)) (request : DumpRequest) :
    traces Prod.snd (session.runDump source request) = [] := by
  cases request with
  | bytes ref =>
      refine traces_bind fun node => ?_
      cases node.toJson source <;> rfl
  | intoSink ref limit =>
      refine traces_bind fun node => traces_bind fun bound => ?_
      exact filter_isTrace_dumpSeries _ _ _ _
  | series refs style limit =>
      refine traces_bind fun nodes => traces_bind fun style => traces_bind fun bound => ?_
      exact filter_isTrace_dumpSeries _ _ _ _

theorem traces_run (session : Session) (request : Request) :
    traces Effect.events (session.run request) =
      (session.attemptsFor request).flatMap Attempt.landing := by
  cases request with
  | cursor slot request =>
      cases request with
      | error refusal => exact traces_bind fun _ => rfl
      | ok request =>
          simp only [run, attemptsFor, cursorAt]
          cases session.cursors.get? slot with
          | none => rfl
          | some cursor =>
              rw [Option.toList_some, List.flatMap_singleton]
              exact session.traces_runCursor slot cursor request
  | iterator slot request =>
      cases request with
      | error refusal => exact traces_bind fun _ => rfl
      | ok request =>
          simp only [run, attemptsFor, iteratorAt]
          cases session.iterators.get? slot with
          | none => rfl
          | some iterator =>
              rw [Option.toList_some, List.flatMap_singleton]
              exact session.traces_runIterator slot iterator request
  | node ref query =>
      cases query with
      | error refusal => exact traces_bind fun _ => rfl
      | ok query =>
          simp only [run, attemptsFor]
          cases session.nodeAt ref with
          | error refusal => rfl
          | ok node =>
              rw [Except.toOption, Option.toList_some, List.flatMap_singleton]
              exact (traces_answered session _).trans (session.traces_answerNode node query)
  | dump source request =>
      refine traces_bind fun source => traces_bind fun request => ?_
      exact (traces_answered session _).trans (session.traces_runDump source request)
  | parse source previous record =>
      cases previous with
      | none =>
          rw [run]
          cases record.bind (·.parsedTree? source) <;> rfl
      | some number =>
          refine traces_bind fun _ => ?_
          cases record.bind (·.parsedTree? source) <;> rfl
  | editTree number edit record =>
      refine traces_bind fun sourced => traces_bind fun edit => ?_
      cases record.bind (·.editedTree? sourced.tree.root) <;> rfl
  | changedRanges old new ranges =>
      refine traces_bind fun _ => traces_bind fun _ => traces_bind fun _ => ?_
      cases ranges <;> rfl
  | hold ref slot => exact traces_bind fun _ => traces_bind fun _ => rfl
  | same first others =>
      exact traces_bind fun _ => traces_bind fun _ => traces_bind fun _ => rfl
  | _ => exact traces_bind fun _ => rfl

theorem traces_respond (session : Session) (request : Except Refusal Request) :
    (session.respond request).2.events.filter Event.isTrace =
      (request.toOption.toList.flatMap session.attemptsFor).flatMap Attempt.landing := by
  cases request with
  | error refusal => rfl
  | ok request =>
      have traced := session.traces_run request
      rw [Except.toOption, Option.toList_some, List.flatMap_singleton, ← traced]
      simp only [respond, Except.bind]
      cases session.run request <;> rfl

/-- Whatever is done in a session, the traces in the log are those of the calls of moves: one for
each call of a named move that has failed but has left its cursor on another node, with the kind and
the depth of that node, and no other. A move logs it at one of the two places in its loops. -/
theorem traces_transcript (session : Session) (requests : List (Except Refusal Request)) :
    (session.transcript requests).map (fun reply => reply.events.filter Event.isTrace) =
        (session.attemptsAlong requests).map (fun attempts => attempts.flatMap Attempt.landing) ∧
      ∀ (cursor : Cursor) (direction : Direction),
        let entered := cursor.namedChild direction
        let sought := cursor.namedSibling direction
        cursor.enterLogging direction =
            (entered, Attempt.landing ⟨true, cursor, entered.isFound, entered.place cursor⟩) ∧
          cursor.seekLogging direction false =
            (sought, Attempt.landing ⟨true, cursor, sought.isFound, sought.place cursor⟩) := by
  constructor
  · induction requests generalizing session with
    | nil => rfl
    | cons request rest ih =>
        rw [transcript, attemptsAlong, List.map_cons, List.map_cons, ih, traces_respond]
  · intro cursor direction
    rw [cursor.enterLogging_eq, cursor.seekLogging_false]
    exact ⟨congrArg _ (cursor.landsApart_enter ⟨direction, true⟩).events,
      congrArg _ (cursor.landsApart_proceed ⟨direction, true⟩).events⟩

end Session

end ConcreteSyntax
