/-!
Places in a source text: points (row and column), spans, and the edits that move them.

Offsets, rows and columns are 32-bit counters held as natural numbers. `wrap` is the only
reduction, and `displaced` the only subtraction that can pass below zero.
-/

namespace ConcreteSyntax

/-- Counters wrap around at two to the power of 32. -/
def wrap (count : Nat) : Nat :=
  count % 0x100000000

theorem wrap_eq_self_iff {count : Nat} : wrap count = count ↔ count < 0x100000000 := by
  rw [wrap]
  omega

def displaced (count origin target : Nat) : Nat :=
  wrap (count + (0x100000000 - wrap origin) + target)

/-- A row and a column in it, both from zero. A column counts bytes. -/
structure Point where
  row : Nat
  column : Nat
deriving DecidableEq

namespace Point

def zero : Point := ⟨0, 0⟩

instance : LE Point where
  le first second :=
    first.row < second.row ∨ first.row = second.row ∧ first.column ≤ second.column

instance : LT Point where
  lt first second :=
    first.row < second.row ∨ first.row = second.row ∧ first.column < second.column

instance (first second : Point) : Decidable (first ≤ second) :=
  inferInstanceAs (Decidable (_ ∨ _ ∧ _))

instance (first second : Point) : Decidable (first < second) :=
  inferInstanceAs (Decidable (_ ∨ _ ∧ _))

def add (start extent : Point) : Point :=
  if extent.row = 0 then ⟨start.row, wrap (start.column + extent.column)⟩
  else ⟨wrap (start.row + extent.row), extent.column⟩

/-- The extent from `start` to a later point. An earlier point gives no rows and no columns. -/
def sub (stop start : Point) : Point :=
  if start.row < stop.row then ⟨stop.row - start.row, stop.column⟩
  else ⟨0, stop.column - start.column⟩

def reduced (point : Point) : Point :=
  ⟨wrap point.row, wrap point.column⟩

def moved (point origin target : Point) : Point :=
  if point.row = origin.row then ⟨target.row, displaced point.column origin.column target.column⟩
  else ⟨displaced point.row origin.row target.row, point.column⟩

end Point

structure Span where
  startByte : Nat
  endByte : Nat
  startPoint : Point
  endPoint : Point
deriving DecidableEq

namespace Span

def bytes (span : Span) : Nat × Nat :=
  (span.startByte, span.endByte)

def points (span : Span) : Point × Point :=
  (span.startPoint, span.endPoint)

def moved (span : Span) (byte : Nat) (point : Point) (newByte : Nat) (newPoint : Point) : Span where
  startByte := displaced span.startByte byte newByte
  endByte := displaced span.endByte byte newByte
  startPoint := span.startPoint.moved point newPoint
  endPoint := span.endPoint.moved point newPoint

end Span

/-- The replacement of the text between `startByte` and `oldEndByte` by a text that ends at
`newEndByte`, with the points of the three places. -/
structure Edit where
  startByte : Nat
  oldEndByte : Nat
  newEndByte : Nat
  startPoint : Point
  oldEndPoint : Point
  newEndPoint : Point
deriving DecidableEq

namespace Edit

def reduced (edit : Edit) : Edit where
  startByte := wrap edit.startByte
  oldEndByte := wrap edit.oldEndByte
  newEndByte := wrap edit.newEndByte
  startPoint := edit.startPoint.reduced
  oldEndPoint := edit.oldEndPoint.reduced
  newEndPoint := edit.newEndPoint.reduced

/-- Where the edit takes a place of the old text. A place after the replaced text keeps its
distance from it, a place inside is taken to its new end, and a place before it stays. -/
def place (edit : Edit) (byte : Nat) (point : Point) : Nat × Point :=
  let edit := edit.reduced
  if edit.oldEndByte ≤ byte then
    (wrap (edit.newEndByte + (byte - edit.oldEndByte)),
      edit.newEndPoint.add (point.sub edit.oldEndPoint))
  else if edit.startByte < byte then (edit.newEndByte, edit.newEndPoint)
  else (byte, point)

end Edit

end ConcreteSyntax
