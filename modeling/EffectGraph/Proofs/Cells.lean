import EffectGraph.Placement

/-!
# `Proofs.Cells` — every element of a lattice has a cell of its own

The cells of a lattice are numbered with the first coordinate varying fastest. Over the natural
numbers, of any size, `Coordinates.number` says which number a cell has; each number below the volume
is the number of exactly one cell (`Coordinates.number_eq_iff`). `Cell.ofIndex` finds that cell in
64-bit words, although the volume need not fit into one: a volume that is cut off at the greatest word
still exceeds every 32-bit index, so the index is reduced as by the volume itself
(`Cell.mod_boundedVolume`).

The product that is cut off is the only place where words could fail: `checkedLattice` is the same
computation with every other operation checked, and it never gives up.
-/

namespace EffectGraph.Placement

/-! ## Cells over the natural numbers -/

/-- The coordinates of a cell, or the size of a lattice, as natural numbers. -/
structure Coordinates where
  x : Nat
  y : Nat
  z : Nat
deriving DecidableEq, Repr

namespace Coordinates

/-- The size of a lattice: each count is raised to at least one. -/
def ofCounts (countX countY countZ : UInt32) : Coordinates :=
  ⟨max countX.toNat 1, max countY.toNat 1, max countZ.toNat 1⟩

/-- How many cells there are. -/
def volume (size : Coordinates) : Nat := size.x * size.y * size.z

/-- The cell is one of the lattice. -/
def Within (cell size : Coordinates) : Prop := cell.x < size.x ∧ cell.y < size.y ∧ cell.z < size.z

instance (cell size : Coordinates) : Decidable (cell.Within size) :=
  inferInstanceAs (Decidable (_ ∧ _))

/-- The number of a cell: first along `x`, then along `y`, then along `z`. -/
def number (size cell : Coordinates) : Nat := cell.x + size.x * (cell.y + size.y * cell.z)

/-- The cell of a number. -/
def ofNumber (size : Coordinates) (i : Nat) : Coordinates :=
  ⟨i % size.x, i / size.x % size.y, i / (size.x * size.y)⟩

variable {size cell : Coordinates} {i : Nat}

theorem number_ofNumber (size : Coordinates) (i : Nat) : size.number (size.ofNumber i) = i := by
  show i % size.x + size.x * (i / size.x % size.y + size.y * (i / (size.x * size.y))) = i
  rw [← Nat.div_div_eq_div_mul, Nat.mod_add_div, Nat.mod_add_div]

/-- A cell is found by its number. -/
theorem ofNumber_number (h : cell.Within size) : size.ofNumber (size.number cell) = cell := by
  obtain ⟨hx, hy, -⟩ := h
  have hrow : size.number cell / size.x = cell.y + size.y * cell.z := by
    unfold number
    rw [Nat.add_mul_div_left _ _ (Nat.zero_lt_of_lt hx), Nat.div_eq_of_lt hx, Nat.zero_add]
  have hcolumn : size.number cell % size.x = cell.x := by
    unfold number
    rw [Nat.add_mul_mod_self_left, Nat.mod_eq_of_lt hx]
  have hlayer : (cell.y + size.y * cell.z) / size.y = cell.z := by
    rw [Nat.add_mul_div_left _ _ (Nat.zero_lt_of_lt hy), Nat.div_eq_of_lt hy, Nat.zero_add]
  unfold ofNumber
  rw [← Nat.div_div_eq_div_mul, hcolumn, hrow, hlayer, Nat.add_mul_mod_self_left, Nat.mod_eq_of_lt hy]

theorem within_ofNumber (h : i < size.volume) : (size.ofNumber i).Within size := by
  have hvolume : 0 < size.x * size.y * size.z := Nat.zero_lt_of_lt h
  have hlayer : 0 < size.x * size.y := Nat.pos_of_mul_pos_right hvolume
  refine ⟨?x, ?y, ?z⟩
  case x => exact Nat.mod_lt _ (Nat.pos_of_mul_pos_right hlayer)
  case y => exact Nat.mod_lt _ (Nat.pos_of_mul_pos_left hlayer)
  case z => exact Nat.div_lt_of_lt_mul h

theorem number_lt_volume (h : cell.Within size) : size.number cell < size.volume := by
  obtain ⟨hx, hy, hz⟩ := h
  calc cell.x + size.x * (cell.y + size.y * cell.z)
      < size.x + size.x * (cell.y + size.y * cell.z) := Nat.add_lt_add_right hx _
    _ = size.x * (cell.y + 1 + size.y * cell.z) := by
        rw [Nat.add_right_comm, Nat.mul_succ, Nat.add_comm]
    _ ≤ size.x * (size.y + size.y * cell.z) :=
        Nat.mul_le_mul_left _ (Nat.add_le_add_right hy _)
    _ = size.x * (size.y * (cell.z + 1)) := by rw [Nat.mul_succ, Nat.add_comm]
    _ ≤ size.x * (size.y * size.z) := Nat.mul_le_mul_left _ (Nat.mul_le_mul_left _ hz)
    _ = size.volume := by rw [volume, Nat.mul_assoc]

/-- **Each number below the volume is the number of exactly one cell.** -/
theorem number_eq_iff (h : i < size.volume) :
    cell.Within size ∧ size.number cell = i ↔ cell = size.ofNumber i := by
  constructor
  · rintro ⟨hw, rfl⟩
    exact (ofNumber_number hw).symm
  · rintro rfl
    exact ⟨within_ofNumber h, number_ofNumber size i⟩

theorem volume_pos (countX countY countZ : UInt32) : 0 < (ofCounts countX countY countZ).volume := by
  have hone : ∀ count : UInt32, 0 < max count.toNat 1 := by
    intro count
    omega
  exact Nat.mul_pos (Nat.mul_pos (hone countX) (hone countY)) (hone countZ)

end Coordinates

/-! ## Cells in words -/

/-- A bounded product is the product over the natural numbers, cut off at the greatest word. -/
theorem toNat_boundedProduct (a b : UInt64) :
    (boundedProduct a b).toNat = min (a.toNat * b.toNat) (UInt64.size - 1) := by
  unfold boundedProduct
  by_cases h : a.toNat * b.toNat < UInt64.size
  · have hproduct : (a * b).toNat = a.toNat * b.toNat := by
      rw [UInt64.toNat_mul]
      exact Nat.mod_eq_of_lt h
    rw [if_pos h, hproduct]
    omega
  · have hbound : (UInt64.ofNat (UInt64.size - 1)).toNat = UInt64.size - 1 := by decide
    rw [if_neg h, hbound]
    omega

theorem toNat_effectiveCount (count : UInt32) : (effectiveCount count).toNat = max count.toNat 1 := by
  show (if count ≤ 1 then 1 else count).toNat = max count.toNat 1
  by_cases h : count ≤ 1
  · have hle : count.toNat ≤ 1 := UInt32.le_iff_toNat_le.mp h
    rw [if_pos h, Nat.max_eq_right hle]
    rfl
  · have hlt : 1 < count.toNat := by
      rw [UInt32.le_iff_toNat_le] at h
      exact Nat.lt_of_not_le h
    rw [if_neg h, Nat.max_eq_left (Nat.le_of_lt hlt)]

namespace Cell

/-- The coordinates of a cell. -/
def coordinates (cell : Cell) : Coordinates := ⟨cell.x.toNat, cell.y.toNat, cell.z.toNat⟩

theorem coordinates_inj {a b : Cell} (h : a.coordinates = b.coordinates) : a = b := by
  obtain ⟨ax, ay, az⟩ := a
  obtain ⟨bx, b_y, bz⟩ := b
  simp only [coordinates, Coordinates.mk.injEq, UInt64.toNat_inj] at h
  obtain ⟨rfl, rfl, rfl⟩ := h
  rfl

section

variable (countX countY countZ index : UInt32)

theorem coordinates_ofCounts :
    (ofCounts countX countY countZ).coordinates = Coordinates.ofCounts countX countY countZ := by
  simp only [coordinates, ofCounts, Coordinates.ofCounts, UInt32.toNat_toUInt64, toNat_effectiveCount]

/-- A product of two counts is a word. -/
theorem layer_lt :
    (ofCounts countX countY countZ).x.toNat * (ofCounts countX countY countZ).y.toNat <
      UInt64.size := by
  have hcount : ∀ count : UInt32, (effectiveCount count).toUInt64.toNat ≤ UInt32.size - 1 := by
    intro count
    rw [UInt32.toNat_toUInt64]
    have hword : (effectiveCount count).toNat < UInt32.size := (effectiveCount count).toNat_lt
    omega
  calc (effectiveCount countX).toUInt64.toNat * (effectiveCount countY).toUInt64.toNat
      ≤ (UInt32.size - 1) * (UInt32.size - 1) := Nat.mul_le_mul (hcount countX) (hcount countY)
    _ < UInt64.size := by decide

/-- The volume as it is found in words: only the last product can be cut off. -/
theorem toNat_boundedVolume :
    (boundedProduct (boundedProduct (ofCounts countX countY countZ).x
      (ofCounts countX countY countZ).y) (ofCounts countX countY countZ).z).toNat =
      min (Coordinates.ofCounts countX countY countZ).volume (UInt64.size - 1) := by
  have hlayer : (boundedProduct (ofCounts countX countY countZ).x
      (ofCounts countX countY countZ).y).toNat =
      (ofCounts countX countY countZ).x.toNat * (ofCounts countX countY countZ).y.toNat := by
    rw [toNat_boundedProduct]
    exact Nat.min_eq_left (Nat.le_sub_one_of_lt (layer_lt countX countY countZ))
  rw [toNat_boundedProduct, hlayer, ← coordinates_ofCounts]
  rfl

/-- **Reducing by the bounded volume is reducing by the volume**: either they are the same, or both
    exceed every index. -/
theorem mod_boundedVolume :
    (index.toUInt64 % boundedProduct (boundedProduct (ofCounts countX countY countZ).x
      (ofCounts countX countY countZ).y) (ofCounts countX countY countZ).z).toNat =
      index.toNat % (Coordinates.ofCounts countX countY countZ).volume := by
  rw [UInt64.toNat_mod, UInt32.toNat_toUInt64, toNat_boundedVolume]
  have hindex : index.toNat < UInt32.size := index.toNat_lt
  have hbound : UInt32.size < UInt64.size := by decide
  generalize (Coordinates.ofCounts countX countY countZ).volume = volume
  by_cases hword : volume ≤ UInt64.size - 1
  · rw [Nat.min_eq_left hword]
  · rw [Nat.min_eq_right (by omega), Nat.mod_eq_of_lt (by omega), Nat.mod_eq_of_lt (by omega)]

/-- **The words find the cell that the natural numbers find.** -/
theorem coordinates_ofIndex :
    ((ofCounts countX countY countZ).ofIndex index).coordinates =
      (Coordinates.ofCounts countX countY countZ).ofNumber
        (index.toNat % (Coordinates.ofCounts countX countY countZ).volume) := by
  have hlayer := layer_lt countX countY countZ
  have hproduct : ((ofCounts countX countY countZ).x * (ofCounts countX countY countZ).y).toNat =
      (ofCounts countX countY countZ).x.toNat * (ofCounts countX countY countZ).y.toNat := by
    rw [UInt64.toNat_mul]
    exact Nat.mod_eq_of_lt hlayer
  rw [← mod_boundedVolume, ← coordinates_ofCounts]
  simp only [coordinates, ofIndex, Coordinates.ofNumber, UInt64.toNat_mod, UInt64.toNat_div, hproduct]

end

end Cell

/-! ## Checked words -/

namespace Checked

/-- The product of two words, if it is a word. -/
def product (a b : UInt64) : Option UInt64 :=
  if a.toNat * b.toNat < UInt64.size then some (a * b) else none

/-- The difference of two words, if it is not negative. -/
def difference (a b : UInt64) : Option UInt64 := if b ≤ a then some (a - b) else none

/-- The quotient of two words, if the divisor is not zero. -/
def quotient (a b : UInt64) : Option UInt64 := if b = 0 then none else some (a / b)

/-- The remainder of two words, if the divisor is not zero. -/
def remainder (a b : UInt64) : Option UInt64 := if b = 0 then none else some (a % b)

/-- `Cell.ofIndex`, every operation but the cut-off products checked. -/
def cellOfIndex (size : Cell) (index : UInt32) : Option Cell := do
  let index ← remainder index.toUInt64 (boundedProduct (boundedProduct size.x size.y) size.z)
  let row ← quotient index size.x
  return ⟨← remainder index size.x, ← remainder row size.y,
    ← quotient index (← product size.x size.y)⟩

/-- `ratio`, the difference checked. -/
def ratio (cell count : UInt64) : Option Float32 := do
  let last ← difference count 1
  return cell.toFloat32 / (max last 1).toFloat32

/-- `lattice`, every operation on words but the cut-off products checked. -/
def lattice (origin axisX axisY axisZ : Vec3) (index countX countY countZ : UInt32) :
    Option Vec3 := do
  let size := Cell.ofCounts countX countY countZ
  let cell ← cellOfIndex size index
  return origin + axisX.scale (← ratio cell.x size.x) + axisY.scale (← ratio cell.y size.y) +
    axisZ.scale (← ratio cell.z size.z)

variable {a b : UInt64}

theorem quotient_of_pos (h : 0 < b.toNat) : quotient a b = some (a / b) := by
  have hne : b ≠ 0 := by
    rintro rfl
    exact Nat.lt_irrefl 0 h
  exact if_neg hne

theorem remainder_of_pos (h : 0 < b.toNat) : remainder a b = some (a % b) := by
  have hne : b ≠ 0 := by
    rintro rfl
    exact Nat.lt_irrefl 0 h
  exact if_neg hne

theorem ratio_of_pos {cell count : UInt64} (h : 0 < count.toNat) :
    ratio cell count = some (Placement.ratio cell count) := by
  have hone : (1 : UInt64) ≤ count := UInt64.le_iff_toNat_le.mpr h
  unfold ratio difference
  rw [if_pos hone]
  rfl

section

variable (countX countY countZ index : UInt32)

theorem count_pos (count : UInt32) : 0 < (effectiveCount count).toUInt64.toNat := by
  rw [UInt32.toNat_toUInt64, toNat_effectiveCount]
  omega

/-- No check on the way to a cell fails. -/
theorem cellOfIndex_ofCounts :
    cellOfIndex (Cell.ofCounts countX countY countZ) index =
      some ((Cell.ofCounts countX countY countZ).ofIndex index) := by
  have hlayer := Cell.layer_lt countX countY countZ
  have hx : 0 < (Cell.ofCounts countX countY countZ).x.toNat := count_pos countX
  have hy : 0 < (Cell.ofCounts countX countY countZ).y.toNat := count_pos countY
  have hvolume : 0 < (boundedProduct (boundedProduct (Cell.ofCounts countX countY countZ).x
      (Cell.ofCounts countX countY countZ).y) (Cell.ofCounts countX countY countZ).z).toNat := by
    have hpos := Coordinates.volume_pos countX countY countZ
    have hword : 0 < UInt64.size - 1 := by decide
    rw [Cell.toNat_boundedVolume]
    omega
  have hproduct : 0 < ((Cell.ofCounts countX countY countZ).x *
      (Cell.ofCounts countX countY countZ).y).toNat := by
    rw [UInt64.toNat_mul, Nat.mod_eq_of_lt hlayer]
    exact Nat.mul_pos hx hy
  simp [cellOfIndex, Cell.ofIndex, product, hlayer, remainder_of_pos hvolume, remainder_of_pos hx,
    remainder_of_pos hy, quotient_of_pos hx, quotient_of_pos hproduct]

/-- **No check fails**, so nothing overflows, underflows or divides by zero. -/
theorem lattice_eq_some (origin axisX axisY axisZ : Vec3) :
    lattice origin axisX axisY axisZ index countX countY countZ =
      some (Placement.lattice origin axisX axisY axisZ index countX countY countZ) := by
  have hx : 0 < (Cell.ofCounts countX countY countZ).x.toNat := count_pos countX
  have hy : 0 < (Cell.ofCounts countX countY countZ).y.toNat := count_pos countY
  have hz : 0 < (Cell.ofCounts countX countY countZ).z.toNat := count_pos countZ
  simp only [lattice, cellOfIndex_ofCounts, ratio_of_pos hx, ratio_of_pos hy, ratio_of_pos hz]
  rfl

end

end Checked

/-! ## The elements of a lattice -/

/-- **Every element of a lattice is placed in the cell of its number.** The cell that is found in words
    is the one that natural numbers of any size would give, and it alone decides the position; no
    operation on words fails on the way. So no two indices below the volume share a cell, and if all
    numbers of cells are indices, every cell has exactly one. -/
theorem lattice_cells_exact (countX countY countZ : UInt32) :
    (∀ (index : UInt32) (cell : Coordinates),
      cell.Within (Coordinates.ofCounts countX countY countZ) ∧
          (Coordinates.ofCounts countX countY countZ).number cell =
            index.toNat % (Coordinates.ofCounts countX countY countZ).volume ↔
        cell = ((Cell.ofCounts countX countY countZ).ofIndex index).coordinates) ∧
    (∀ (index : UInt32) (origin axisX axisY axisZ : Vec3) (cell : Cell),
      cell.coordinates.Within (Coordinates.ofCounts countX countY countZ) →
      (Coordinates.ofCounts countX countY countZ).number cell.coordinates =
        index.toNat % (Coordinates.ofCounts countX countY countZ).volume →
        lattice origin axisX axisY axisZ index countX countY countZ =
          origin + axisX.scale (ratio cell.x (Cell.ofCounts countX countY countZ).x) +
            axisY.scale (ratio cell.y (Cell.ofCounts countX countY countZ).y) +
            axisZ.scale (ratio cell.z (Cell.ofCounts countX countY countZ).z)) ∧
    (∀ (index : UInt32) (origin axisX axisY axisZ : Vec3),
      Checked.lattice origin axisX axisY axisZ index countX countY countZ =
        some (lattice origin axisX axisY axisZ index countX countY countZ)) ∧
    (∀ i j : UInt32, i.toNat < (Coordinates.ofCounts countX countY countZ).volume →
      j.toNat < (Coordinates.ofCounts countX countY countZ).volume →
      (Cell.ofCounts countX countY countZ).ofIndex i =
        (Cell.ofCounts countX countY countZ).ofIndex j → i = j) ∧
    ((Coordinates.ofCounts countX countY countZ).volume ≤ UInt32.size →
      ∀ cell : Coordinates, cell.Within (Coordinates.ofCounts countX countY countZ) →
        ∃ index : UInt32, ∀ other : UInt32,
          other.toNat < (Coordinates.ofCounts countX countY countZ).volume ∧
              ((Cell.ofCounts countX countY countZ).ofIndex other).coordinates = cell ↔
            other = index) := by
  have hcell : ∀ (index : UInt32) (cell : Coordinates),
      cell.Within (Coordinates.ofCounts countX countY countZ) ∧
          (Coordinates.ofCounts countX countY countZ).number cell =
            index.toNat % (Coordinates.ofCounts countX countY countZ).volume ↔
        cell = ((Cell.ofCounts countX countY countZ).ofIndex index).coordinates := by
    intro index cell
    rw [Cell.coordinates_ofIndex]
    exact Coordinates.number_eq_iff (Nat.mod_lt _ (Coordinates.volume_pos countX countY countZ))
  have hposition : ∀ index origin axisX axisY axisZ,
      lattice origin axisX axisY axisZ index countX countY countZ =
        origin + axisX.scale (ratio ((Cell.ofCounts countX countY countZ).ofIndex index).x
            (Cell.ofCounts countX countY countZ).x) +
          axisY.scale (ratio ((Cell.ofCounts countX countY countZ).ofIndex index).y
            (Cell.ofCounts countX countY countZ).y) +
          axisZ.scale (ratio ((Cell.ofCounts countX countY countZ).ofIndex index).z
            (Cell.ofCounts countX countY countZ).z) := fun _ _ _ _ _ => rfl
  -- what follows is about the one cell in words and the one size in numbers
  generalize Cell.ofCounts countX countY countZ = words at hcell hposition ⊢
  generalize Coordinates.ofCounts countX countY countZ = size at hcell ⊢
  -- below the volume, an index is the number of its cell
  have hnumber : ∀ index : UInt32, index.toNat < size.volume →
      size.number (words.ofIndex index).coordinates = index.toNat := by
    intro index hi
    have hmod := ((hcell index _).mpr rfl).2
    rwa [Nat.mod_eq_of_lt hi] at hmod
  refine ⟨hcell, ?position, ?checked, ?distinct, ?every⟩
  case position =>
    intro index origin axisX axisY axisZ cell hwithin hi
    have hfound : cell = words.ofIndex index :=
      Cell.coordinates_inj ((hcell index _).mp ⟨hwithin, hi⟩)
    rw [hfound]
    exact hposition index origin axisX axisY axisZ
  case checked =>
    intro index origin axisX axisY axisZ
    exact Checked.lattice_eq_some countX countY countZ index origin axisX axisY axisZ
  case distinct =>
    intro i j hi hj heq
    apply UInt32.toNat_inj.mp
    rw [← hnumber i hi, ← hnumber j hj, heq]
  case every =>
    intro hsize cell hwithin
    have hlt : size.number cell < size.volume := Coordinates.number_lt_volume hwithin
    have hword : (UInt32.ofNat (size.number cell)).toNat = size.number cell :=
      UInt32.toNat_ofNat_of_lt' (Nat.lt_of_lt_of_le hlt hsize)
    refine ⟨UInt32.ofNat (size.number cell), ?_⟩
    intro other
    constructor
    · rintro ⟨ho, rfl⟩
      apply UInt32.toNat_inj.mp
      rw [hword, hnumber other ho]
    · rintro rfl
      refine ⟨hword.symm ▸ hlt, ?_⟩
      refine ((hcell _ cell).mp ⟨hwithin, ?_⟩).symm
      rw [hword, Nat.mod_eq_of_lt hlt]

/-- Where all counts are the greatest, the volume exceeds the words, and the last index falls into the
    second row. Where the volume is just the number of indices, the last index is the only one of the
    last cell. -/
theorem greatest_lattice_cells :
    UInt64.size ≤ (Coordinates.ofCounts 0xffffffff 0xffffffff 0xffffffff).volume ∧
    ((Cell.ofCounts 0xffffffff 0xffffffff 0xffffffff).ofIndex 0xffffffff).coordinates = ⟨0, 1, 0⟩ ∧
    (∀ origin axisX axisY axisZ : Vec3,
      lattice origin axisX axisY axisZ 0xffffffff 0xffffffff 0xffffffff 0xffffffff =
        origin + axisX.scale (ratio 0 0xffffffff) + axisY.scale (ratio 1 0xffffffff) +
          axisZ.scale (ratio 0 0xffffffff)) ∧
    (Coordinates.ofCounts 65536 65536 0).volume = UInt32.size ∧
    ∃ index : UInt32, ∀ other : UInt32,
      other.toNat < (Coordinates.ofCounts 65536 65536 0).volume ∧
        ((Cell.ofCounts 65536 65536 0).ofIndex other).coordinates = ⟨65535, 65535, 0⟩ ↔
      other = index := by
  obtain ⟨hcell, hposition, -, -, -⟩ := lattice_cells_exact 0xffffffff 0xffffffff 0xffffffff
  obtain ⟨-, -, -, -, hevery⟩ := lattice_cells_exact 65536 65536 0
  refine ⟨by decide, ?_, ?_, by decide, hevery (by decide) ⟨65535, 65535, 0⟩ (by decide)⟩
  · exact ((hcell 0xffffffff ⟨0, 1, 0⟩).mp (by decide)).symm
  · intro origin axisX axisY axisZ
    exact hposition 0xffffffff origin axisX axisY axisZ ⟨0, 1, 0⟩ (by decide) (by decide)

end EffectGraph.Placement
