import EffectGraph.Proofs.Cells
import EffectGraph.Proofs.Sequential

/-!
# `Proofs.Cycles` — sequences start over, and the next element follows except at the last word

A sequence has as many elements as its counts say, over the natural numbers. An index is reduced by
that number, so indices that leave one remainder have one position. The target of the next element is
found by adding one to the index in 32-bit words. The sum starts over after the greatest word, and this
agrees with the sequence starting over only if its length divides the number of words.

## Contents
- `Placement.Pattern`: all that places a sequence but the index, so that the three shapes are one.
- `Pattern.position_congr`, `Pattern.position_of_raisesZero`.
- `ShapeInputs.EvaluatesTo`: from the expressions of a shape to its pattern.
- `target_is_next_element`.
-/

namespace EffectGraph

namespace Placement

/-! ## Patterns -/

/-- What places the elements of a sequence: all but the index. -/
inductive Pattern where
  | line (start finish : Vec3) (count : UInt32)
  | circle (center : Vec3) (radius : Float32) (normal up : Vec3) (count : UInt32)
  | lattice (origin axisX axisY axisZ : Vec3) (countX countY countZ : UInt32)

namespace Pattern

/-- How many elements there are. A count of zero is taken as one. -/
def length : Pattern → Nat
  | .line _ _ count => max count.toNat 1
  | .circle _ _ _ _ count => max count.toNat 1
  | .lattice _ _ _ _ countX countY countZ =>
    max countX.toNat 1 * max countY.toNat 1 * max countZ.toNat 1

/-- The position of the element of an index. -/
def position (pattern : Pattern) (index : UInt32) : Vec3 :=
  match pattern with
  | .line start finish count => Placement.line start finish index count
  | .circle center radius normal up count => Placement.circle center radius normal up index count
  | .lattice origin axisX axisY axisZ countX countY countZ =>
    Placement.lattice origin axisX axisY axisZ index countX countY countZ

/-- The position of the element of a number. -/
def element (pattern : Pattern) (k : Nat) : Vec3 := pattern.position (UInt32.ofNat k)

/-- One count is zero in the first pattern and one in the second. -/
inductive RaisesZero : Pattern → Pattern → Prop where
  | line (start finish : Vec3) : RaisesZero (.line start finish 0) (.line start finish 1)
  | circle (center : Vec3) (radius : Float32) (normal up : Vec3) :
    RaisesZero (.circle center radius normal up 0) (.circle center radius normal up 1)
  | latticeX (origin axisX axisY axisZ : Vec3) (countY countZ : UInt32) :
    RaisesZero (.lattice origin axisX axisY axisZ 0 countY countZ)
      (.lattice origin axisX axisY axisZ 1 countY countZ)
  | latticeY (origin axisX axisY axisZ : Vec3) (countX countZ : UInt32) :
    RaisesZero (.lattice origin axisX axisY axisZ countX 0 countZ)
      (.lattice origin axisX axisY axisZ countX 1 countZ)
  | latticeZ (origin axisX axisY axisZ : Vec3) (countX countY : UInt32) :
    RaisesZero (.lattice origin axisX axisY axisZ countX countY 0)
      (.lattice origin axisX axisY axisZ countX countY 1)

end Pattern

/-- An index is used by its remainder. -/
theorem mod_effectiveCount_congr {count i j : UInt32}
    (h : i.toNat % max count.toNat 1 = j.toNat % max count.toNat 1) :
    i % effectiveCount count = j % effectiveCount count := by
  apply UInt32.toNat_inj.mp
  rw [UInt32.toNat_mod, UInt32.toNat_mod, toNat_effectiveCount, h]

/-- Indices of one remainder by the volume fall into one cell. -/
theorem Cell.ofIndex_congr {countX countY countZ i j : UInt32}
    (h : i.toNat % (Coordinates.ofCounts countX countY countZ).volume =
      j.toNat % (Coordinates.ofCounts countX countY countZ).volume) :
    (ofCounts countX countY countZ).ofIndex i = (ofCounts countX countY countZ).ofIndex j := by
  apply coordinates_inj
  rw [coordinates_ofIndex, coordinates_ofIndex, h]

namespace Pattern

variable {pattern other : Pattern} {i j : UInt32}

/-- **Indices of one remainder have one position.** -/
theorem position_congr (h : i.toNat % pattern.length = j.toNat % pattern.length) :
    pattern.position i = pattern.position j := by
  cases pattern with
  | line start finish count =>
    simp only [position, Placement.line, mod_effectiveCount_congr h]
  | circle center radius normal up count =>
    simp only [position, Placement.circle, mod_effectiveCount_congr h]
  | lattice origin axisX axisY axisZ countX countY countZ =>
    have hcell : (Cell.ofCounts countX countY countZ).ofIndex i =
        (Cell.ofCounts countX countY countZ).ofIndex j := Cell.ofIndex_congr h
    simp only [position, Placement.lattice, hcell]

/-- **A count of zero is a count of one.** -/
theorem position_of_raisesZero (h : pattern.RaisesZero other) :
    other.length = pattern.length ∧ ∀ index, other.position index = pattern.position index := by
  cases h <;> exact ⟨rfl, fun _ => rfl⟩

/-- An index has the position of the element that it leaves. -/
theorem element_mod (pattern : Pattern) (i : UInt32) :
    pattern.element (i.toNat % pattern.length) = pattern.position i := by
  apply position_congr
  have hword : i.toNat % pattern.length < UInt32.size :=
    Nat.lt_of_le_of_lt (Nat.mod_le _ _) i.toNat_lt
  rw [UInt32.toNat_ofNat_of_lt' hword, Nat.mod_mod]

end Pattern
end Placement

namespace Sequential

open Placement

/-! ## From inputs to patterns -/

/-- The expressions of a shape have the values that a pattern of the shape is made of. -/
inductive ShapeInputs.EvaluatesTo (particle : Particle) : ShapeInputs → Pattern → Prop where
  | line {count start finish : Expression} {n : UInt32} {a b : Vec3}
    (hcount : count.evaluate particle = .ok (.uint n))
    (hstart : start.evaluate particle = .ok (.float3 a))
    (hfinish : finish.evaluate particle = .ok (.float3 b)) :
    EvaluatesTo particle (.line count start finish) (.line a b n)
  | circle {count center normal up radius : Expression} {n : UInt32} {c z y : Vec3} {r : Float32}
    (hcount : count.evaluate particle = .ok (.uint n))
    (hcenter : center.evaluate particle = .ok (.float3 c))
    (hnormal : normal.evaluate particle = .ok (.float3 z))
    (hup : up.evaluate particle = .ok (.float3 y))
    (hradius : radius.evaluate particle = .ok (.float r)) :
    EvaluatesTo particle (.circle count center normal up radius) (.circle c r z y n)
  | threeDimensional {origin axisX axisY axisZ countX countY countZ : Expression} {o x y z : Vec3}
    {k m n : UInt32} (horigin : origin.evaluate particle = .ok (.float3 o))
    (hx : axisX.evaluate particle = .ok (.float3 x))
    (hy : axisY.evaluate particle = .ok (.float3 y))
    (hz : axisZ.evaluate particle = .ok (.float3 z))
    (hcountX : countX.evaluate particle = .ok (.uint k))
    (hcountY : countY.evaluate particle = .ok (.uint m))
    (hcountZ : countZ.evaluate particle = .ok (.uint n)) :
    EvaluatesTo particle (.threeDimensional origin axisX axisY axisZ countX countY countZ)
      (.lattice o x y z k m n)

variable {particle : Particle} {pattern : Pattern} {i : UInt32}

/-- The position expression has the position that the pattern gives to the index. -/
theorem ShapeInputs.EvaluatesTo.evaluate_position {shape : ShapeInputs} {index : Expression}
    (h : shape.EvaluatesTo particle pattern) (hi : index.evaluate particle = .ok (.uint i)) :
    (shape.position index).evaluate particle = .ok (.float3 (pattern.position i)) := by
  cases h with
  | @line count start finish n a b hcount hstart hfinish =>
    exact Expression.evaluate_line.mpr ⟨a, b, i, n, hstart, hfinish, hi, hcount, rfl⟩
  | @circle count center normal up radius n c z y r hcount hcenter hnormal hup hradius =>
    exact Expression.evaluate_circle.mpr
      ⟨c, r, z, y, i, n, hcenter, hradius, hnormal, hup, hi, hcount, rfl⟩
  | @threeDimensional origin axisX axisY axisZ countX countY countZ o x y z k m n horigin hx hy hz
      hcountX hcountY hcountZ =>
    exact Expression.evaluate_lattice.mpr
      ⟨o, x, y, z, i, k, m, n, horigin, hx, hy, hz, hi, hcountX, hcountY, hcountZ, rfl⟩

/-- Inputs whose expressions have values of the declared types make a pattern. -/
theorem exists_pattern {shape : Shape} {worth : String → Option Value} {input : String → Expression}
    (h : ∀ d ∈ shapeDeclarations shape, Denotes particle worth input d.name d.valueType) :
    ∃ pattern, (shapeInputs shape input).EvaluatesTo particle pattern := by
  cases shape <;> simp only [shapeDeclarations, List.forall_mem_cons] at h
  case line =>
    obtain ⟨hcount, hstart, hend, -⟩ := h
    obtain ⟨n, -, en⟩ := hcount.uint
    obtain ⟨a, -, ea⟩ := hstart.float3
    obtain ⟨b, -, eb⟩ := hend.float3
    exact ⟨.line a b n, .line en ea eb⟩
  case circle =>
    obtain ⟨hcount, hcenter, hnormal, hup, hradius, -⟩ := h
    obtain ⟨n, -, en⟩ := hcount.uint
    obtain ⟨c, -, ec⟩ := hcenter.float3
    obtain ⟨z, -, ez⟩ := hnormal.float3
    obtain ⟨y, -, ey⟩ := hup.float3
    obtain ⟨r, -, er⟩ := hradius.float
    exact ⟨.circle c r z y n, .circle en ec ez ey er⟩
  case threeDimensional =>
    obtain ⟨horigin, hx, hy, hz, hcx, hcy, hcz, -⟩ := h
    obtain ⟨o, -, eo⟩ := horigin.float3
    obtain ⟨x, -, ex⟩ := hx.float3
    obtain ⟨y, -, ey⟩ := hy.float3
    obtain ⟨z, -, ez⟩ := hz.float3
    obtain ⟨k, -, ek⟩ := hcx.uint
    obtain ⟨m, -, em⟩ := hcy.uint
    obtain ⟨n, -, en⟩ := hcz.uint
    exact ⟨.lattice o x y z k m n, .threeDimensional eo ex ey ez ek em en⟩

/-- Inputs that slots bind make a pattern as soon as they have values: their types are the declared
    ones. -/
theorem exists_pattern_of_ofSlots {settings : Settings} {slots : List Slot} {inputs : BoundInputs}
    (hb : (BoundInputs.ofSlots (declarations settings.shape settings.index) slots).outcome =
      .ok inputs)
    (hv : ∀ d ∈ shapeDeclarations settings.shape, ∀ e, inputs.get? d.name = some e →
      ∃ v, e.evaluate particle = .ok v) :
    ∃ shape pattern, ShapeInputs.resolve settings.shape inputs = .ok shape ∧
      shape.EvaluatesTo particle pattern := by
  have hbinds : inputs.BindsAll (shapeDeclarations settings.shape) := by
    intro d hd
    exact BoundInputs.bindsAll_ofSlots hb d (List.mem_append_left _ hd)
  have hdenotes : ∀ d ∈ shapeDeclarations settings.shape,
      Denotes particle (fun name => ((inputs.expression name).evaluate particle).toOption)
        inputs.expression d.name d.valueType := by
    intro d hd
    have hdeclared : d ∈ declarations settings.shape settings.index := List.mem_append_left _ hd
    obtain ⟨e, he⟩ := hbinds d hd
    have hexpression : inputs.expression d.name = e := by rw [BoundInputs.expression, he]; rfl
    obtain ⟨v, hvalue⟩ := hv d hd e he
    rw [← hexpression] at hvalue
    have htype : v.type = d.valueType :=
      (Expression.type_of_evaluate hvalue).trans
        (Declaration.bind_type (default_type hdeclared) (bind_of_ofSlots hb hdeclared))
    refine ⟨v, ?_, htype, hvalue⟩
    simp [hvalue, Except.toOption]
  obtain ⟨pattern, hpattern⟩ := exists_pattern hdenotes
  exact ⟨_, pattern, resolve_of_bindsAll hbinds, hpattern⟩

/-! ## The next element -/

/-- **The next word leaves the next element, except at the greatest word**: there it does only if the
    length divides the number of words. -/
theorem next_mod_iff {n k : Nat} (hk : k < UInt32.size) :
    (k + 1) % UInt32.size % n = (k % n + 1) % n ↔ k < UInt32.size - 1 ∨ n ∣ UInt32.size := by
  rw [Nat.mod_add_mod]
  by_cases hlast : k < UInt32.size - 1
  · have hword : k + 1 < UInt32.size := by omega
    rw [Nat.mod_eq_of_lt hword]
    exact iff_of_true rfl (.inl hlast)
  · -- the word after is zero, so the element after has to be the first one
    have hwraps : k + 1 = UInt32.size := by omega
    rw [hwraps, Nat.mod_self, Nat.zero_mod, or_iff_right hlast, Nat.dvd_iff_mod_eq_zero, eq_comm]

/-- **Sequences start over, and the target is the next element except at the last word.**

    * Indices that leave one remainder by the length of a sequence have one position.
    * A count of zero is the same as a count of one.
    * The position of a particle is that of the element that its index leaves. Its target is that of
      the element that the next word leaves, which is the next element around the sequence unless the
      index is the greatest word and the length does not divide the number of words.
    * So it is for all inputs that slots bind, wherever they have values. -/
theorem target_is_next_element :
    (∀ (pattern : Pattern) (i j : UInt32), i.toNat % pattern.length = j.toNat % pattern.length →
      pattern.position i = pattern.position j) ∧
    (∀ pattern other : Pattern, pattern.RaisesZero other →
      other.length = pattern.length ∧ ∀ index, other.position index = pattern.position index) ∧
    (∀ (settings : Settings) (inputs : BoundInputs) (particle : Particle) (shape : ShapeInputs)
        (pattern : Pattern) (index : Expression) (i : UInt32),
      settings.target = .next → ShapeInputs.resolve settings.shape inputs = .ok shape →
      indexExpression settings.index inputs = .ok index → shape.EvaluatesTo particle pattern →
      index.evaluate particle = .ok (.uint i) →
      ∃ position target, computePositions settings inputs = .ok ⟨position, .separate target⟩ ∧
        position.evaluate particle =
          .ok (.float3 (pattern.element (i.toNat % pattern.length))) ∧
        target.evaluate particle =
          .ok (.float3 (pattern.element ((i.toNat + 1) % UInt32.size % pattern.length))) ∧
        ((i.toNat + 1) % UInt32.size % pattern.length =
            (i.toNat % pattern.length + 1) % pattern.length ↔
          i.toNat < UInt32.size - 1 ∨ pattern.length ∣ UInt32.size)) ∧
    ∀ (settings : Settings) (slots : List Slot) (inputs : BoundInputs) (particle : Particle),
      (BoundInputs.ofSlots (declarations settings.shape settings.index) slots).outcome =
        .ok inputs →
      (∀ d ∈ shapeDeclarations settings.shape, ∀ e, inputs.get? d.name = some e →
        ∃ v, e.evaluate particle = .ok v) →
      ∃ shape pattern, ShapeInputs.resolve settings.shape inputs = .ok shape ∧
        shape.EvaluatesTo particle pattern := by
  refine ⟨fun _ _ _ => Pattern.position_congr, fun _ _ => Pattern.position_of_raisesZero, ?next,
    fun _ _ _ _ => exists_pattern_of_ofSlots⟩
  intro settings inputs particle shape pattern index i htarget hresolve hindex hshape hi
  have hcomputed : computePositions settings inputs =
      .ok ⟨shape.position index, .separate (shape.position (nextIndex index))⟩ := by
    rw [computePositions, hresolve, hindex, htarget]
    rfl
  have hsum : (i + 1).toNat = (i.toNat + 1) % UInt32.size := UInt32.toNat_add i 1
  refine ⟨_, _, hcomputed, ?_, ?_, next_mod_iff i.toNat_lt⟩
  · rw [Pattern.element_mod]
    exact hshape.evaluate_position hi
  · -- the same shape, at the word after
    rw [← hsum, Pattern.element_mod]
    exact hshape.evaluate_position (evaluate_nextIndex hi)

/-- A ring of three stands still at the greatest word, as three does not divide the number of words:
    the position and the target are those of the first element. -/
theorem ring_stands_still :
    (∀ center radius normal up, (Pattern.circle center radius normal up 0).position 7 =
      (Pattern.circle center radius normal up 1).position 7) ∧
    ∃ inputs shape pattern position target,
      (BoundInputs.ofSlots (declarations ring.shape ring.index) ringSlots).outcome = .ok inputs ∧
        ShapeInputs.resolve ring.shape inputs = .ok shape ∧ shape.EvaluatesTo lastStep pattern ∧
        pattern.position 5 = pattern.position 8 ∧
        computePositions ring inputs = .ok ⟨position, .separate target⟩ ∧
        position.evaluate lastStep = .ok (.float3 (pattern.element 0)) ∧
        target.evaluate lastStep = .ok (.float3 (pattern.element 0)) := by
  obtain ⟨repeats, raises, moves, binds⟩ := target_is_next_element
  refine ⟨fun center radius normal up => ?_, ?_⟩
  · exact ((raises _ _ (.circle center radius normal up)).2 7).symm
  obtain ⟨shape, pattern, hresolve, hpattern⟩ := binds ring ringSlots _ lastStep rfl (by
    simp only [ring, shapeDeclarations, List.forall_mem_cons]
    refine ⟨?_, ?_, ?_, ?_, ?_, by simp⟩ <;> rintro e he <;> cases he <;> exact ⟨_, rfl⟩)
  have hlength : pattern.length = 3 := by
    cases hresolve
    cases hpattern with
    | circle hcount => cases hcount; rfl
  have hrepeats : pattern.position 5 = pattern.position 8 := by
    apply repeats
    rw [hlength]
    rfl
  obtain ⟨position, target, hcomputed, hposition, htarget, -⟩ :=
    moves ring _ lastStep shape pattern _ 4294967295 rfl hresolve rfl hpattern rfl
  rw [hlength] at hposition htarget
  exact ⟨_, shape, pattern, position, target, rfl, hresolve, hpattern, hrepeats, hcomputed,
    hposition, htarget⟩

end Sequential
end EffectGraph
