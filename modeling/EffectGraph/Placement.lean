import EffectGraph.Value

/-!
# `Placement` — positions of a sequence of elements

The three ways to place elements one after another: on a segment, on a circle and in a lattice. An
index beyond the sequence starts over, and a count of zero is taken as one.

Lattice cells are found in 64-bit words. The number of cells may exceed a word; it is then taken as
the greatest word, which is more than any index, so the cell is still the one meant.
-/

namespace EffectGraph.Placement

/-- A count as it is used: at least one. -/
def effectiveCount (count : UInt32) : UInt32 := max count 1

/-- Element `index` of `count` elements evenly spread from `start` to `finish`, the last one on
    `finish`. -/
def line (start finish : Vec3) (index count : UInt32) : Vec3 :=
  let count := effectiveCount count
  let t := (index % count).toFloat32 / (max (count - 1) 1).toFloat32
  start + (finish - start).scale t

/-- A full turn. -/
def fullTurn : Float32 := Single.ofCode false 0x40c90fdb

/-- Element `index` of `count` elements evenly spread on a circle. Element zero lies in the
    direction `up`, and the sequence turns toward `normal × up`. -/
def circle (center : Vec3) (radius : Float32) (normal up : Vec3) (index count : UInt32) : Vec3 :=
  let count := effectiveCount count
  let angle := (index % count).toFloat32 / count.toFloat32 * fullTurn
  let left := (normal.cross up).normalized
  center + (up.scale angle.cos + left.scale angle.sin).scale radius

/-! ## Lattices -/

/-- The product of two words, or the greatest word when the product is none. -/
def boundedProduct (a b : UInt64) : UInt64 :=
  if a.toNat * b.toNat < UInt64.size then a * b else UInt64.ofNat (UInt64.size - 1)

/-- A cell of a lattice, or its size. -/
structure Cell where
  x : UInt64
  y : UInt64
  z : UInt64
deriving DecidableEq, Repr

/-- The size of a lattice. -/
def Cell.ofCounts (countX countY countZ : UInt32) : Cell :=
  ⟨(effectiveCount countX).toUInt64, (effectiveCount countY).toUInt64,
    (effectiveCount countZ).toUInt64⟩

/-- The cell of an element in a lattice of the given size. The first coordinate varies fastest, then
    the second. -/
def Cell.ofIndex (size : Cell) (index : UInt32) : Cell :=
  let index := index.toUInt64 % boundedProduct (boundedProduct size.x size.y) size.z
  ⟨index % size.x, index / size.x % size.y, index / (size.x * size.y)⟩

/-- How far along an axis of `count` cells a cell lies: zero for the first and one for the last. -/
def ratio (cell count : UInt64) : Float32 :=
  cell.toFloat32 / (max (count - 1) 1).toFloat32

/-- The position of a cell in a lattice that three axes span from `origin`. -/
def cellPosition (origin axisX axisY axisZ : Vec3) (size cell : Cell) : Vec3 :=
  origin + axisX.scale (ratio cell.x size.x) + axisY.scale (ratio cell.y size.y) +
    axisZ.scale (ratio cell.z size.z)

/-- Element `index` of a lattice of `countX * countY * countZ` elements. -/
def lattice (origin axisX axisY axisZ : Vec3) (index countX countY countZ : UInt32) : Vec3 :=
  let size := Cell.ofCounts countX countY countZ
  cellPosition origin axisX axisY axisZ size (size.ofIndex index)

end EffectGraph.Placement
