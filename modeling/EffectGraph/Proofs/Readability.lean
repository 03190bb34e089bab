import EffectGraph.Proofs.FormulaWords
import EffectGraph.Proofs.Typing

/-!
# `Proofs.Readability` — the formula of an expression determines it

The text of an expression is the one of a tree of words, calls and operations
(`Expression.toList_text`), and such a tree is read off its text. The tree in turn determines the
expression node by node, but for what is not written, the types of parameters and which `nan` a
constant is (`Expression.alike_of_formula_eq`): calls differ in their functions, and single words in
their form.
-/

namespace EffectGraph

namespace Expression

/-! ## Formulas as trees -/

/-- The formula of an expression as a tree. -/
def formula : Expression → Formula
  | .constant value => value.formula
  | .attr which => .word which.sourceName
  | .parameter name _ => .word name
  | .binary op lhs rhs => .operation op lhs.formula rhs.formula
  | .normalize operand => .call "normalize" operand.formula []
  | .line start finish index count =>
    .call "sequentialLine" start.formula [finish.formula, index.formula, count.formula]
  | .circle center radius normal up index count =>
    .call "sequentialCircle" center.formula
      [radius.formula, normal.formula, up.formula, index.formula, count.formula]
  | .lattice origin axisX axisY axisZ index countX countY countZ =>
    .call "sequential3D" origin.formula
      [axisX.formula, axisY.formula, axisZ.formula, index.formula, countX.formula,
        countY.formula, countZ.formula]

/-- The text of a call from those of its arguments. -/
theorem toList_call {function text : String} {texts : List String} {first : Formula}
    {more : List Formula} (hfirst : text.toList = first.chars)
    (hmore : texts.map String.toList = more.map Formula.chars) :
    (call function (text :: texts)).toList = (Formula.call function first more).chars := by
  have harguments : (", ".intercalate (text :: texts)).toList =
      first.chars ++ Formula.moreChars more := by
    rw [String.toList_intercalate, List.map_cons, hfirst, hmore, intercalate_cons,
      Formula.moreChars_eq]
    rfl
  unfold call
  simp [harguments, Formula.chars, String.toList_append]

/-- **The text of an expression is the one of its tree.** -/
theorem toList_text (e : Expression) : e.text.toList = e.formula.chars := by
  induction e with
  | constant value => exact value.toList_text
  | attr which => rfl
  | parameter name type => rfl
  | binary op lhs rhs hl hr => simp [text, formula, Formula.chars, String.toList_append, hl, hr]
  | normalize operand h => exact toList_call h rfl
  | line start finish index count hs hf hi hc => exact toList_call hs (by simp [hf, hi, hc])
  | circle center radius normal up index count hc hr hn hu hi hk =>
    exact toList_call hc (by simp [hr, hn, hu, hi, hk])
  | lattice origin axisX axisY axisZ index countX countY countZ ho hx hy hz hi hcx hcy hcz =>
    exact toList_call ho (by simp [hx, hy, hz, hi, hcx, hcy, hcz])

/-! ## Readable expressions -/

/-- Whether the name of a parameter is one, and not the one of an attribute. -/
def NamesApart : Expression → Prop
  | .parameter name _ => IsName name ∧ ∀ which : Attribute, name ≠ which.sourceName
  | _ => True

/-- Whether the names of all parameters can be told from the other words of a formula. -/
def Readable (e : Expression) : Prop := ∀ node ∈ e.nodes, node.NamesApart

theorem readable_iff {e : Expression} :
    e.Readable ↔ e.NamesApart ∧ ∀ operand ∈ e.operands, operand.Readable :=
  forall_nodes_iff

theorem Readable.operands {e : Expression} (h : e.Readable) :
    ∀ operand ∈ e.operands, operand.Readable :=
  (readable_iff.mp h).2

theorem spelled_formula {e : Expression} (h : e.Readable) : e.formula.Spelled := by
  induction e using induction_on_operands with
  | step e ih =>
    obtain ⟨hname, hbelow⟩ := readable_iff.mp h
    have hoperands : ∀ operand ∈ e.operands, operand.formula.Spelled :=
      fun operand ho => ih operand ho (hbelow operand ho)
    cases e with
    | constant value => exact value.spelled_formula
    | attr which => exact .word which.isName_sourceName.isWord
    | parameter name type => exact .word hname.1.isWord
    | binary op lhs rhs =>
      exact .operation (hoperands lhs (by simp [operands])) (hoperands rhs (by simp [operands]))
    | normalize operand =>
      obtain ⟨hfirst, hmore⟩ := List.forall_mem_cons.mp hoperands
      exact .call ⟨by decide, by simp [delimiters]⟩ hfirst (by simp)
    | line start finish index count =>
      obtain ⟨hfirst, hmore⟩ := List.forall_mem_cons.mp hoperands
      exact .call ⟨by decide, by simp [delimiters]⟩ hfirst (by simpa using hmore)
    | circle center radius normal up index count =>
      obtain ⟨hfirst, hmore⟩ := List.forall_mem_cons.mp hoperands
      exact .call ⟨by decide, by simp [delimiters]⟩ hfirst (by simpa using hmore)
    | lattice origin axisX axisY axisZ index countX countY countZ =>
      obtain ⟨hfirst, hmore⟩ := List.forall_mem_cons.mp hoperands
      exact .call ⟨by decide, by simp [delimiters]⟩ hfirst (by simpa using hmore)

/-! ## Expressions of one tree -/

/-- Whether two expressions are equal node by node, but for the types of parameters and for which
    `nan` a constant is. -/
inductive Alike : Expression → Expression → Prop where
  | constant {a b : Value} (h : Value.Alike a b) : Alike (.constant a) (.constant b)
  | attr (which : Attribute) : Alike (.attr which) (.attr which)
  | parameter (name : String) (s t : ValueType) : Alike (.parameter name s) (.parameter name t)
  | binary (op : Operator) {lhs lhs' rhs rhs' : Expression} (hl : Alike lhs lhs')
      (hr : Alike rhs rhs') : Alike (.binary op lhs rhs) (.binary op lhs' rhs')
  | normalize {operand operand' : Expression} (h : Alike operand operand') :
      Alike (.normalize operand) (.normalize operand')
  | line {start start' finish finish' index index' count count' : Expression}
      (hs : Alike start start') (hf : Alike finish finish') (hi : Alike index index')
      (hc : Alike count count') :
      Alike (.line start finish index count) (.line start' finish' index' count')
  | circle {center center' radius radius' normal normal' up up' index index' count count' :
        Expression}
      (hc : Alike center center') (hr : Alike radius radius') (hn : Alike normal normal')
      (hu : Alike up up') (hi : Alike index index') (hk : Alike count count') :
      Alike (.circle center radius normal up index count)
        (.circle center' radius' normal' up' index' count')
  | lattice {origin origin' axisX axisX' axisY axisY' axisZ axisZ' index index' countX countX'
        countY countY' countZ countZ' : Expression}
      (ho : Alike origin origin') (hx : Alike axisX axisX') (hy : Alike axisY axisY')
      (hz : Alike axisZ axisZ') (hi : Alike index index') (hcx : Alike countX countX')
      (hcy : Alike countY countY') (hcz : Alike countZ countZ') :
      Alike (.lattice origin axisX axisY axisZ index countX countY countZ)
        (.lattice origin' axisX' axisY' axisZ' index' countX' countY' countZ')

theorem Alike.formula_eq {e f : Expression} (h : Alike e f) : e.formula = f.formula := by
  induction h with
  | constant h => exact Value.formula_eq_iff.mpr h
  | attr which => rfl
  | parameter name s t => rfl
  | binary op hl hr ihl ihr => simp only [formula, ihl, ihr]
  | normalize h ih => simp only [formula, ih]
  | line hs hf hi hc ihs ihf ihi ihc => simp only [formula, ihs, ihf, ihi, ihc]
  | circle hc hr hn hu hi hk ihc ihr ihn ihu ihi ihk =>
    simp only [formula, ihc, ihr, ihn, ihu, ihi, ihk]
  | lattice ho hx hy hz hi hcx hcy hcz iho ihx ihy ihz ihi ihcx ihcy ihcz =>
    simp only [formula, iho, ihx, ihy, ihz, ihi, ihcx, ihcy, ihcz]

section

variable {f : Expression} {a b c d i j k l : Formula}

theorem alike_of_formula_eq_value {value : Value} (hf : f.Readable)
    (h : value.formula = f.formula) : Alike (.constant value) f := by
  cases f with
  | constant other => exact .constant (Value.formula_eq_iff.mp h)
  | attr which => exact absurd h (value.formula_ne_name which.isName_sourceName)
  | parameter name type => exact absurd h (value.formula_ne_name (readable_iff.mp hf).1.1)
  | binary op lhs rhs => exact absurd h (value.formula_ne_operation op _ _)
  | _ => exact absurd h (value.formula_ne_call (by decide) _ _)

theorem alike_of_formula_eq_attr {which : Attribute} (hf : f.Readable)
    (h : f.formula = .word which.sourceName) : Alike (.attr which) f := by
  cases f with
  | constant value => exact absurd h (value.formula_ne_name which.isName_sourceName)
  | attr other =>
    have hsame : which = other := by
      injection h with hname
      cases which <;> cases other <;> simp [Attribute.sourceName] at hname ⊢
    rw [hsame]
    exact .attr other
  | parameter name type =>
    injection h with hname
    exact absurd hname ((readable_iff.mp hf).1.2 which)
  | _ => cases h

theorem alike_of_formula_eq_parameter {name : String} {type : ValueType}
    (he : (parameter name type).Readable) (h : f.formula = .word name) :
    Alike (.parameter name type) f := by
  obtain ⟨hname, hapart⟩ := (readable_iff.mp he).1
  cases f with
  | constant value => exact absurd h (value.formula_ne_name hname)
  | attr which =>
    injection h with hsame
    exact absurd hsame.symm (hapart which)
  | parameter other otherType =>
    injection h with hsame
    rw [hsame]
    exact .parameter name type otherType
  | _ => cases h

theorem exists_binary {op : Operator} (h : f.formula = .operation op a b) :
    ∃ lhs rhs, f = .binary op lhs rhs ∧ lhs.formula = a ∧ rhs.formula = b := by
  cases f with
  | constant value => exact absurd h (value.formula_ne_operation op a b)
  | binary op' lhs rhs =>
    injection h with hop hl hr
    exact ⟨lhs, rhs, by rw [hop], hl, hr⟩
  | _ => cases h

theorem exists_normalize (h : f.formula = .call "normalize" a []) :
    ∃ operand, f = .normalize operand ∧ operand.formula = a := by
  cases f with
  | constant value => exact absurd h (value.formula_ne_call (by decide) _ _)
  | normalize operand =>
    injection h with _ hoperand
    exact ⟨operand, rfl, hoperand⟩
  | _ => simp [formula] at h

theorem exists_line (h : f.formula = .call "sequentialLine" a [b, c, d]) :
    ∃ start finish index count, f = .line start finish index count ∧
      start.formula = a ∧ finish.formula = b ∧ index.formula = c ∧ count.formula = d := by
  cases f with
  | constant value => exact absurd h (value.formula_ne_call (by decide) _ _)
  | line start finish index count =>
    simp only [formula, Formula.call.injEq, List.cons.injEq, true_and, and_true] at h
    exact ⟨start, finish, index, count, rfl, h⟩
  | _ => simp [formula] at h

theorem exists_circle (h : f.formula = .call "sequentialCircle" a [b, c, d, i, j]) :
    ∃ center radius normal up index count, f = .circle center radius normal up index count ∧
      center.formula = a ∧ radius.formula = b ∧ normal.formula = c ∧ up.formula = d ∧
      index.formula = i ∧ count.formula = j := by
  cases f with
  | constant value => exact absurd h (value.formula_ne_call (by decide) _ _)
  | circle center radius normal up index count =>
    simp only [formula, Formula.call.injEq, List.cons.injEq, true_and, and_true] at h
    exact ⟨center, radius, normal, up, index, count, rfl, h⟩
  | _ => simp [formula] at h

theorem exists_lattice (h : f.formula = .call "sequential3D" a [b, c, d, i, j, k, l]) :
    ∃ origin axisX axisY axisZ index countX countY countZ,
      f = .lattice origin axisX axisY axisZ index countX countY countZ ∧
      origin.formula = a ∧ axisX.formula = b ∧ axisY.formula = c ∧ axisZ.formula = d ∧
      index.formula = i ∧ countX.formula = j ∧ countY.formula = k ∧ countZ.formula = l := by
  cases f with
  | constant value => exact absurd h (value.formula_ne_call (by decide) _ _)
  | lattice origin axisX axisY axisZ index countX countY countZ =>
    simp only [formula, Formula.call.injEq, List.cons.injEq, true_and, and_true] at h
    exact ⟨origin, axisX, axisY, axisZ, index, countX, countY, countZ, rfl, h⟩
  | _ => simp [formula] at h

end

/-- **The tree of an expression determines it**, but for what is not written. -/
theorem alike_of_formula_eq {e f : Expression} (he : e.Readable) (hf : f.Readable)
    (h : e.formula = f.formula) : Alike e f := by
  induction e generalizing f with
  | constant value => exact alike_of_formula_eq_value hf h
  | attr which => exact alike_of_formula_eq_attr hf h.symm
  | parameter name type => exact alike_of_formula_eq_parameter he h.symm
  | binary op lhs rhs ihl ihr =>
    obtain ⟨lhs', rhs', rfl, hl, hr⟩ := exists_binary h.symm
    have hbelow := he.operands
    have hbelow' := hf.operands
    simp only [operands, List.forall_mem_cons] at hbelow hbelow'
    obtain ⟨hel, her, -⟩ := hbelow
    obtain ⟨hfl, hfr, -⟩ := hbelow'
    exact .binary op (ihl hel hfl hl.symm) (ihr her hfr hr.symm)
  | normalize operand ih =>
    obtain ⟨operand', rfl, ho⟩ := exists_normalize h.symm
    have heo : operand.Readable := he.operands operand List.mem_cons_self
    have hfo : operand'.Readable := hf.operands operand' List.mem_cons_self
    exact .normalize (ih heo hfo ho.symm)
  | line start finish index count ihs ihf ihi ihc =>
    obtain ⟨start', finish', index', count', rfl, hs, hf', hi, hc⟩ := exists_line h.symm
    have hbelow := he.operands
    have hbelow' := hf.operands
    simp only [operands, List.forall_mem_cons] at hbelow hbelow'
    obtain ⟨hes, hef, hei, hec, -⟩ := hbelow
    obtain ⟨hfs, hff, hfi, hfc, -⟩ := hbelow'
    exact .line (ihs hes hfs hs.symm) (ihf hef hff hf'.symm) (ihi hei hfi hi.symm)
      (ihc hec hfc hc.symm)
  | circle center radius normal up index count ihc ihr ihn ihu ihi ihk =>
    obtain ⟨center', radius', normal', up', index', count', rfl, hc, hr, hn, hu, hi, hk⟩ :=
      exists_circle h.symm
    have hbelow := he.operands
    have hbelow' := hf.operands
    simp only [operands, List.forall_mem_cons] at hbelow hbelow'
    obtain ⟨hec, her, hen, heu, hei, hek, -⟩ := hbelow
    obtain ⟨hfc, hfr, hfn, hfu, hfi, hfk, -⟩ := hbelow'
    exact .circle (ihc hec hfc hc.symm) (ihr her hfr hr.symm) (ihn hen hfn hn.symm)
      (ihu heu hfu hu.symm) (ihi hei hfi hi.symm) (ihk hek hfk hk.symm)
  | lattice origin axisX axisY axisZ index countX countY countZ iho ihx ihy ihz ihi ihcx ihcy ihcz =>
    obtain ⟨origin', axisX', axisY', axisZ', index', countX', countY', countZ', rfl, ho, hx, hy, hz,
      hi, hcx, hcy, hcz⟩ := exists_lattice h.symm
    have hbelow := he.operands
    have hbelow' := hf.operands
    simp only [operands, List.forall_mem_cons] at hbelow hbelow'
    obtain ⟨heo, hex, hey, hez, hei, hecx, hecy, hecz, -⟩ := hbelow
    obtain ⟨hfo, hfx, hfy, hfz, hfi, hfcx, hfcy, hfcz, -⟩ := hbelow'
    exact .lattice (iho heo hfo ho.symm) (ihx hex hfx hx.symm) (ihy hey hfy hy.symm)
      (ihz hez hfz hz.symm) (ihi hei hfi hi.symm) (ihcx hecx hfcx hcx.symm)
      (ihcy hecy hfcy hcy.symm) (ihcz hecz hfcz hcz.symm)

/-- **The text of a readable expression is unambiguous**: expressions of one text are equal node by
    node, with the same operations, operands in the same order, attributes, names and constants. What
    the text leaves open is only what it does not show, the types of parameters and which `nan` a
    constant is. -/
theorem text_eq_iff_alike {e f : Expression} (he : e.Readable) (hf : f.Readable) :
    e.text = f.text ↔ Alike e f := by
  constructor
  · intro h
    have hchars : e.formula.chars = f.formula.chars := by
      rw [← e.toList_text, h, f.toList_text]
    have hformula : e.formula = f.formula :=
      Formula.chars_inj (spelled_formula he) (spelled_formula hf) hchars
    exact alike_of_formula_eq he hf hformula
  · intro h
    apply String.toList_inj.mp
    rw [e.toList_text, f.toList_text, h.formula_eq]

/-- A chain of subtractions from the left, of a negative number and of a parameter that is spelled
    like a function. -/
def subtracted : Expression :=
  .binary .subtract (.binary .subtract (.parameter "offset" .float) (.constant (.float (-1))))
    (.parameter "float3" .float3)

/-- The same chain from the right. -/
def subtractedFromRight : Expression :=
  .binary .subtract (.parameter "offset" .float)
    (.binary .subtract (.constant (.float (-1))) (.parameter "float3" .float3))

/-- The two chains have different texts. -/
theorem subtracted_text_ne : subtracted.Readable ∧ subtractedFromRight.Readable ∧
    subtracted.text ≠ subtractedFromRight.text := by
  have hoffset : ∀ type, (parameter "offset" type).NamesApart := by
    refine fun type => ⟨⟨by decide +kernel, by decide, by decide⟩, fun which => ?_⟩
    cases which <;> decide
  have hfloat3 : ∀ type, (parameter "float3" type).NamesApart := by
    refine fun type => ⟨⟨by decide +kernel, by decide, by decide⟩, fun which => ?_⟩
    cases which <;> decide
  have hconstant : ∀ value, (constant value).NamesApart := fun _ => trivial
  have hbinary : ∀ op lhs rhs, (binary op lhs rhs).NamesApart := fun _ _ _ => trivial
  have hleft : subtracted.Readable := by
    simp [Readable, subtracted, nodes, hoffset, hfloat3, hconstant, hbinary]
  have hright : subtractedFromRight.Readable := by
    simp [Readable, subtractedFromRight, nodes, hoffset, hfloat3, hconstant, hbinary]
  refine ⟨hleft, hright, fun htext => ?_⟩
  cases (text_eq_iff_alike hleft hright).mp htext with
  | binary _ hl _ => cases hl

end Expression

end EffectGraph
