import ConcreteSyntax.Cursor.Count
import ConcreteSyntax.Node.Descendant
import ConcreteSyntax.Node.Expression
import ConcreteSyntax.Session.Answer

/-!
Sessions: a growing list of trees with their sources, and slots for handles, cursors and
iterators.

A request that is refused leaves the session as it is and has no events.
-/

namespace ConcreteSyntax

structure Slots (Value : Type) where
  entries : List (Nat × Value)

namespace Slots

variable {Value : Type}

def empty : Slots Value := ⟨[]⟩

def get? (slots : Slots Value) (slot : Nat) : Option Value :=
  slots.entries.lookup slot

def erase (slots : Slots Value) (slot : Nat) : Slots Value :=
  ⟨slots.entries.filter (·.1 ≠ slot)⟩

def put (slots : Slots Value) (slot : Nat) (value : Value) : Slots Value :=
  ⟨(slot, value) :: (slots.erase slot).entries⟩

end Slots

structure SourcedTree where
  tree : SyntaxTree
  source : Array UInt8

structure Session where
  trees : Array SourcedTree
  handles : Slots Node
  cursors : Slots CountingCursor
  iterators : Slots CountingIterator

namespace Session

def empty : Session :=
  ⟨#[], .empty, .empty, .empty⟩

/-! Looking things up. -/

def sourcedTree (session : Session) (number : Nat) : Except Refusal SourcedTree :=
  match session.trees[number]? with
  | some sourced => .ok sourced
  | none => .error .noSuchTree

def cursorAt (session : Session) (slot : Nat) : Except Refusal CountingCursor :=
  match session.cursors.get? slot with
  | some cursor => .ok cursor
  | none => .error .noSuchCursor

def iteratorAt (session : Session) (slot : Nat) : Except Refusal CountingIterator :=
  match session.iterators.get? slot with
  | some iterator => .ok iterator
  | none => .error .noSuchIterator

def handleAt (session : Session) (slot : Nat) : Except Refusal Node :=
  match session.handles.get? slot with
  | some node => .ok node
  | none => .error .noSuchHandle

def nodeAt (session : Session) : NodeRef → Except Refusal Node
  | .counted number index => do
      let sourced ← session.sourcedTree number
      match sourced.tree.nodeOfIndex? index with
      | some node => .ok node
      | none => .error .noSuchNode
  | .held slot => session.handleAt slot

def nodesAt (session : Session) (refs : List (Except Refusal NodeRef)) :
    Except Refusal (List Node) :=
  refs.mapM (·.bind session.nodeAt)

def sourceAt (session : Session) : SourceRef → Except Refusal (Array UInt8)
  | .ofTree number => (session.sourcedTree number).map (·.source)
  | .bytes bytes => .ok bytes

def sourceAt? (session : Session) : Option SourceRef → Except Refusal (Option (Array UInt8))
  | none => .ok none
  | some source => (session.sourceAt source).map some

/-! Changing the slots. -/

def addTree (session : Session) (root : Tree) (source : Array UInt8) : Session × SyntaxTree :=
  let tree : SyntaxTree := ⟨session.trees.size, root⟩
  ({ session with trees := session.trees.push ⟨tree, source⟩ }, tree)

def putCursor (session : Session) (slot : Nat) (cursor : CountingCursor) : Session :=
  { session with cursors := session.cursors.put slot cursor }

def putIterator (session : Session) (slot : Nat) (iterator : CountingIterator) : Session :=
  { session with iterators := session.iterators.put slot iterator }

/-! Answering. -/

structure Effect where
  session : Session
  answer : Answer
  events : List Event

def answerNode (session : Session) (node : Node) :
    NodeQuery → Except Refusal (Answer × List Event)
  | .info => .ok (.info node, [])
  | .child index => .ok (.node (node.child? index), [])
  | .namedChild index => .ok (.node (node.namedChild? index), [])
  | .childByFieldName name => .ok (.node (node.childByFieldName? name), [])
  | .childByFieldId id => .ok (.node (node.childByFieldId? id), [])
  | .fieldNameForChild index => .ok (.text (node.fieldNameForChild? index), [])
  | .fieldNameForNamedChild index => .ok (.text (node.fieldNameForNamedChild? index), [])
  | .parent => .ok (.node node.parent?, [])
  | .nextSibling => .ok (.node node.nextSibling?, [])
  | .previousSibling => .ok (.node node.previousSibling?, [])
  | .nextNamedSibling => .ok (.node node.nextNamedSibling?, [])
  | .previousNamedSibling => .ok (.node node.previousNamedSibling?, [])
  | .children => .ok (.nodes node.children, [])
  | .namedChildren =>
      .ok (.nodes node.namedChildren,
        (node.iterate.drain .named).landing.toList.map Event.ofLanding)
  | .childrenByFieldName name => .ok (.nodes (node.childrenByFieldName name), [])
  | .descendantForBytes namedOnly start stop =>
      .ok (.node (node.descendantForBytes? (fun found => !namedOnly || found.isNamed) start stop),
        [])
  | .descendantForPoints namedOnly start stop =>
      .ok (.node (node.descendantForPoints? (fun found => !namedOnly || found.isNamed) start stop),
        [])
  | .rawText source => do
      let source ← session.sourceAt source
      .ok (.bytes (node.rawText source), [])
  | .expression => .ok (.text node.expression, [])

def moveCursor (session : Session) (slot : Nat) (cursor : CountingCursor)
    (outcome : Outcome CountingCursor) : Effect :=
  let after := outcome.place cursor
  ⟨session.putCursor slot after, .moved outcome.isFound after.place,
    (outcome.map (·.place)).events⟩

def placeCursor (session : Session) (slot : Nat) (cursor : CountingCursor) : Effect :=
  ⟨session.putCursor slot cursor, .place cursor.place, []⟩

def runCursor (session : Session) (slot : Nat) (cursor : CountingCursor) :
    CursorRequest → Except Refusal Effect
  | .parent => .ok (session.moveCursor slot cursor (.ofOption cursor.parent?))
  | .enter order => .ok (session.moveCursor slot cursor (cursor.enter order))
  | .proceed order => .ok (session.moveCursor slot cursor (cursor.proceed order))
  | .here => .ok ⟨session, .place cursor.place, []⟩
  | .descendant index => .ok (session.placeCursor slot (cursor.descendant index))
  | .descendantIndex => .ok ⟨session, .placeIndex cursor.count cursor.place, []⟩
  | .firstChildPastByte byte => .ok (enterPast (cursor.firstChildPastByte? byte))
  | .firstChildPastPoint point => .ok (enterPast (cursor.firstChildPastPoint? point))
  | .reset ref => do
      let node ← session.nodeAt ref
      .ok (session.placeCursor slot (cursor.reset node))
  | .resetTo other => do
      if other = slot then .error .noSuchCursor
      else
        let other ← session.cursorAt other
        .ok (session.placeCursor slot (cursor.resetTo other))
  | .describe => .ok ⟨session, .placeText cursor.place.description cursor.place, []⟩
where
  enterPast : Option (Nat × CountingCursor) → Effect
    | some (index, after) =>
        ⟨session.putCursor slot after, .placeIndex (some index) after.place, []⟩
    | none => ⟨session, .placeIndex none cursor.place, []⟩

def runIterator (session : Session) (slot : Nat) (iterator : CountingIterator) :
    IteratorRequest → Except Refusal Effect
  | .step order =>
      let after := iterator.advance order
      .ok ⟨session.putIterator slot after,
        .placeItem (iterator.pass.next? order) after.pass.cursor,
        (iterator.pass.move order).events⟩
  | .steps order count =>
      let bound := count.getD iterator.pass.room
      let run := iterator.pass.run order bound
      .ok ⟨session.putIterator slot (iterator.run order bound),
        .placeItems run.items run.last.cursor, run.landing.toList.map Event.ofLanding⟩
  | .reset =>
      let after := iterator.reset
      .ok ⟨session.putIterator slot after, .place after.pass.cursor, []⟩
  | .intoCursor target =>
      let emptied := { session with iterators := session.iterators.erase slot }
      .ok (emptied.placeCursor target iterator.cursor)
  | .describe => .ok ⟨session, .placeText iterator.pass.description iterator.pass.cursor, []⟩

def dumpSeries (style : Json.Style) (source : Option (Array UInt8)) (sink : Sink) :
    List Node → Answer × List Event
  | [] => (.written sink.bytes none, [])
  | node :: rest =>
      let started := Event.serializing node source.isSome
      match (Json.writeDocument style source node).run sink with
      | .error error sink => (.written sink.bytes (some error), [started])
      | .ok _ sink =>
          let (answer, events) := dumpSeries style source sink rest
          (answer, started :: events)

def runDump (session : Session) (source : Option (Array UInt8)) :
    DumpRequest → Except Refusal (Answer × List Event)
  | .bytes ref => do
      let node ← session.nodeAt ref
      match node.toJson source with
      | .ok bytes => .ok (.bytes bytes, [.serializing node source.isSome])
      | .error error => .ok (.written #[] (some error), [.serializing node source.isSome])
  | .intoSink ref limit => do
      let node ← session.nodeAt ref
      .ok (dumpSeries .standard source (.empty (← limit)) [node])
  | .series refs style limit => do
      let nodes ← session.nodesAt refs
      .ok (dumpSeries (← style) source (.empty (← limit)) nodes)

def openCursor (session : Session) (slot : Nat) (cursor : CountingCursor) : Effect :=
  ⟨session.putCursor slot cursor, .cursor cursor.place, []⟩

def openIterator (session : Session) (slot : Nat) (iterator : CountingIterator) : Effect :=
  ⟨session.putIterator slot iterator, .place iterator.pass.cursor, []⟩

def openTree (session : Session) (root : Tree) (source : Array UInt8) (events : List Event) :
    Effect :=
  let (after, tree) := session.addTree root source
  ⟨after, .made tree, events⟩

def run (session : Session) : Request → Except Refusal Effect
  | .parse source previous record => do
      match previous with
      | some number => discard (session.sourcedTree number)
      | none => pure ()
      match record.bind (·.parsedTree? source) with
      | none => .error .badRequest
      | some root =>
          .ok (session.openTree root source
            [.parsing source.size previous.isSome, .parsed root.label.kind root.label.hasError])
  | .cloneTree number => do
      let sourced ← session.sourcedTree number
      .ok (session.openTree sourced.tree.root sourced.source [])
  | .editTree number edit record => do
      let sourced ← session.sourcedTree number
      let edit ← edit
      match record.bind (·.editedTree? sourced.tree.root) with
      | none => .error .badRequest
      | some root => .ok (session.openTree root sourced.source [.editing edit])
  | .treeRoot number => do
      let sourced ← session.sourcedTree number
      .ok ⟨session, .node sourced.tree.rootNode, []⟩
  | .treeExpression number => do
      let sourced ← session.sourcedTree number
      .ok ⟨session, .text sourced.tree.rootNode.expression, []⟩
  | .treeGrammar number => do
      discard (session.sourcedTree number)
      .ok ⟨session, .grammar .c, []⟩
  | .changedRanges old new ranges => do
      discard (session.sourcedTree old)
      discard (session.sourcedTree (← new))
      match ranges with
      | none => .error .badRequest
      | some ranges => .ok ⟨session, .changed ranges, []⟩
  | .hold ref slot => do
      let node ← session.nodeAt ref
      let slot ← slot
      .ok ⟨{ session with handles := session.handles.put slot node }, .node node, []⟩
  | .editHeld edit slot => do
      let node := (← session.handleAt slot).edit edit
      .ok ⟨{ session with handles := session.handles.put slot node }, .node node, []⟩
  | .same first others => do
      let first ← session.nodeAt (← first)
      let others ← session.nodesAt others
      let nodes := first :: others
      .ok ⟨session, .comparison (nodes.map (· == first))
        (nodes.all fun node => node != first || hash node == hash first)
        (Node.distinct nodes).length, []⟩
  | .node ref query => do
      let node ← session.nodeAt ref
      let (answer, events) ← session.answerNode node (← query)
      .ok ⟨session, answer, events⟩
  | .walkTree slot number => do
      let sourced ← session.sourcedTree number
      .ok (session.openCursor slot sourced.tree.rootNode.walkCounting)
  | .walkNode slot ref => do
      let node ← session.nodeAt ref
      .ok (session.openCursor slot node.walkCounting)
  | .copyCursor slot other => do
      .ok (session.openCursor slot (← session.cursorAt other))
  | .cursor slot request => do
      let cursor ← session.cursorAt slot
      session.runCursor slot cursor (← request)
  | .iterateCursor slot cursor => do
      .ok (session.openIterator slot (← session.cursorAt cursor).iterate)
  | .iterateNode slot ref => do
      let node ← session.nodeAt ref
      .ok (session.openIterator slot node.walkCounting.iterate)
  | .copyIterator slot other => do
      .ok (session.openIterator slot (← session.iteratorAt other))
  | .iterator slot request => do
      let iterator ← session.iteratorAt slot
      session.runIterator slot iterator (← request)
  | .dump source request => do
      let source ← session.sourceAt? source
      let (answer, events) ← session.runDump source (← request)
      .ok ⟨session, answer, events⟩

def respond (session : Session) (request : Except Refusal Request) : Session × Reply :=
  match request.bind session.run with
  | .ok effect => (effect.session, ⟨.ok effect.answer, effect.events⟩)
  | .error refusal => (session, ⟨.error refusal, []⟩)

def transcript (session : Session) : List (Except Refusal Request) → List Reply
  | [] => []
  | request :: rest =>
      let (after, reply) := session.respond request
      reply :: after.transcript rest

end Session

end ConcreteSyntax
