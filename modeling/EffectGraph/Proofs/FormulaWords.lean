import EffectGraph.Expression.Formula
import EffectGraph.Proofs.Formulas
import EffectGraph.Proofs.NumberText
import EffectGraph.Proofs.Places

/-!
# `Proofs.FormulaWords` — the words of formulas and what they stand for

The single words of a formula differ in their form. An integer begins with a digit and has a `u` in
it; a number has none, and begins with a digit or a minus sign unless it is `inf` or `NaN`; and a
name is an identifier other than these two. So words of different kinds are never equal
(`text_uint_ne_single`, `IsName.ne_text_uint`, `IsName.ne_text_single`), and the formula of a value
determines the value, but for which `nan` a number is (`Value.formula_eq_iff`).
-/

namespace EffectGraph

/-! ## Names -/

/-- Whether a text is an identifier: letters, digits and underscores, the first of them no digit. -/
def isIdentifier (name : String) : Bool :=
  match name.toList with
  | [] => false
  | first :: rest => (first.isAlpha || first == '_') && rest.all fun c => c.isAlphanum || c == '_'

/-- Whether a text is an identifier other than the words for special numbers. -/
structure IsName (name : String) : Prop where
  identifier : isIdentifier name = true
  ne_inf : name ≠ "inf"
  ne_nan : name ≠ "NaN"

theorem Attribute.isName_sourceName (which : Attribute) : IsName which.sourceName := by
  cases which with
  | particleId => exact ⟨by decide +kernel, by decide, by decide⟩
  | position => exact ⟨by decide +kernel, by decide, by decide⟩
  | targetPosition => exact ⟨by decide +kernel, by decide, by decide⟩

theorem exists_of_isIdentifier {name : String} (h : isIdentifier name = true) :
    ∃ first rest, name.toList = first :: rest ∧ (first.isAlpha = true ∨ first = '_') ∧
      ∀ c ∈ rest, c.isAlphanum = true ∨ c = '_' := by
  unfold isIdentifier at h
  cases hname : name.toList with
  | nil =>
    rw [hname] at h
    cases h
  | cons first rest =>
    rw [hname] at h
    refine ⟨first, rest, rfl, ?_, ?_⟩
    · simpa using (Bool.and_eq_true_iff.mp h).1
    · simpa using (Bool.and_eq_true_iff.mp h).2

/-! ## Words -/

theorem not_delimiter_of_isAlphanum {c : Char} (h : c.isAlphanum = true ∨ c = '_') :
    c ∉ delimiters := by
  have hnone : ∀ d ∈ delimiters, ¬ (d.isAlphanum = true ∨ d = '_') := by
    simp [delimiters]
  exact fun hc => hnone c hc h

theorem not_delimiter_of_isDigit {c : Char} (h : c.isDigit = true) : c ∉ delimiters :=
  not_delimiter_of_isAlphanum (.inl (by simp [Char.isAlphanum, h]))

theorem IsName.isWord {name : String} (h : IsName name) : IsWord name := by
  obtain ⟨first, rest, hname, hfirst, hrest⟩ := exists_of_isIdentifier h.identifier
  refine ⟨?_, ?_⟩
  · rintro rfl
    cases hname
  · intro c hc
    rw [hname] at hc
    rcases List.mem_cons.mp hc with rfl | hc
    · refine not_delimiter_of_isAlphanum (hfirst.imp_left fun halpha => ?_)
      simp [Char.isAlphanum, halpha]
    · exact not_delimiter_of_isAlphanum (hrest c hc)

theorem Single.isWord_text (x : Float32) : IsWord (Single.text x) := by
  refine ⟨?_, ?_⟩
  · intro hempty
    rcases Single.beginsNumber_or_eq x with ⟨c, rest, hcons, -⟩ | hinf | hnan
    · rw [hempty] at hcons
      cases hcons
    · exact absurd (hempty.symm.trans hinf) (by decide)
    · exact absurd (hempty.symm.trans hnan) (by decide)
  · intro c hc
    have hmarks : ∀ mark ∈ Single.marks, mark ∉ delimiters := by
      simp [Single.marks, delimiters]
    rcases Single.mem_text hc with hdigit | hmark
    · exact not_delimiter_of_isDigit hdigit
    · exact hmarks c hmark

theorem toList_text_uint (n : UInt32) :
    (Value.uint n).text.toList = Nat.toDigits 10 n.toNat ++ ['u'] := by
  unfold Value.text
  rw [String.toList_append, toList_toString]
  rfl

theorem isWord_text_uint (n : UInt32) : IsWord (Value.uint n).text := by
  refine ⟨?_, ?_⟩
  · intro hempty
    have hchars := toList_text_uint n
    rw [hempty] at hchars
    simp at hchars
  · intro c hc
    rw [toList_text_uint] at hc
    rcases List.mem_append.mp hc with hdigit | hmark
    · exact not_delimiter_of_isDigit (isDigit_toDigits _ c hdigit)
    · rw [List.mem_singleton.mp hmark]
      decide

/-! ### Words of different kinds -/

theorem isAlpha_of_isDigit {c : Char} (h : c.isDigit = true) : c.isAlpha = false := by
  rw [← Bool.not_eq_true]
  intro halpha
  simp only [Char.isAlpha, Char.isUpper, Char.isLower, Char.isDigit, Bool.or_eq_true,
    Bool.and_eq_true, decide_eq_true_eq, ge_iff_le, UInt32.le_iff_toNat_le] at h halpha
  have hnine : '9'.val.toNat = 57 := rfl
  have hupper : 'A'.val.toNat = 65 := rfl
  have hlower : 'a'.val.toNat = 97 := rfl
  omega

/-- No name begins as a number does. -/
theorem IsName.not_beginsNumber {name : String} (h : IsName name) :
    ¬ Single.BeginsNumber name.toList := by
  rintro ⟨c, rest, hcons, hnumber⟩
  obtain ⟨first, rest', hname, hfirst, -⟩ := exists_of_isIdentifier h.identifier
  rw [hcons] at hname
  cases hname
  rcases hnumber with hdigit | rfl
  · rcases hfirst with halpha | rfl
    · rw [isAlpha_of_isDigit hdigit] at halpha
      cases halpha
    · exact absurd hdigit (by decide)
  · exact absurd hfirst (by decide)

theorem text_uint_inj {m n : UInt32} (h : (Value.uint m).text = (Value.uint n).text) : m = n := by
  have hchars : Nat.toDigits 10 m.toNat ++ ['u'] = Nat.toDigits 10 n.toNat ++ ['u'] := by
    rw [← toList_text_uint, h, toList_text_uint]
  have hdigits : Nat.toDigits 10 m.toNat = Nat.toDigits 10 n.toNat :=
    List.append_cancel_right hchars
  apply UInt32.toNat_inj.mp
  rw [← Nat.ofDigitChars_ten_toDigits (n := m.toNat), hdigits, Nat.ofDigitChars_ten_toDigits]

theorem text_uint_ne_single (n : UInt32) (x : Float32) : (Value.uint n).text ≠ Single.text x := by
  intro h
  have hmark : 'u' ∈ (Single.text x).toList := by
    rw [← h, toList_text_uint]
    exact List.mem_append_right _ List.mem_cons_self
  exact absurd (Single.mem_text hmark) (by decide)

theorem IsName.ne_text_uint {name : String} (h : IsName name) (n : UInt32) :
    name ≠ (Value.uint n).text := by
  rintro rfl
  apply h.not_beginsNumber
  rw [toList_text_uint]
  cases hdigits : Nat.toDigits 10 n.toNat with
  | nil => exact absurd hdigits Nat.toDigits_ne_nil
  | cons c rest =>
    refine ⟨c, rest ++ ['u'], rfl, .inl ?_⟩
    apply isDigit_toDigits n.toNat
    rw [hdigits]
    exact List.mem_cons_self

theorem IsName.ne_text_single {name : String} (h : IsName name) (x : Float32) :
    name ≠ Single.text x := by
  rintro rfl
  rcases Single.beginsNumber_or_eq x with hbegins | hinf | hnan
  · exact h.not_beginsNumber hbegins
  · exact h.ne_inf hinf
  · exact h.ne_nan hnan

/-! ## Constants -/

namespace Value

/-- The formula of a value as a tree. -/
def formula : Value → Formula
  | .uint n => .word (Value.uint n).text
  | .float x => .word (Single.text x)
  | .float3 v => .call "float3" (.word (Single.text v.x))
      [.word (Single.text v.y), .word (Single.text v.z)]

/-- Whether two values are the same, but for which `nan` a number is. -/
inductive Alike : Value → Value → Prop where
  | uint (n : UInt32) : Alike (.uint n) (.uint n)
  | float {x y : Float32} (h : Single.Alike x y) : Alike (.float x) (.float y)
  | float3 {v w : Vec3} (hx : Single.Alike v.x w.x) (hy : Single.Alike v.y w.y)
      (hz : Single.Alike v.z w.z) : Alike (.float3 v) (.float3 w)

theorem toList_text (value : Value) : value.text.toList = value.formula.chars := by
  cases value with
  | uint n => rfl
  | float x => rfl
  | float3 v =>
    simp [text, Vec3.text, formula, Formula.chars, Formula.moreChars, String.toList_append]

theorem spelled_formula (value : Value) : value.formula.Spelled := by
  cases value with
  | uint n => exact .word (isWord_text_uint n)
  | float x => exact .word (Single.isWord_text x)
  | float3 v =>
    refine .call ⟨by decide, by simp [delimiters]⟩ (.word (Single.isWord_text v.x)) ?_
    simp [Formula.Spelled.word (Single.isWord_text _)]

theorem formula_eq_iff {a b : Value} : a.formula = b.formula ↔ Alike a b := by
  constructor
  · intro h
    cases a with
    | uint m =>
      cases b with
      | uint n =>
        injection h with hword
        rw [text_uint_inj hword]
        exact .uint n
      | float x =>
        injection h with hword
        exact absurd hword (text_uint_ne_single m x)
      | float3 v => cases h
    | float x =>
      cases b with
      | uint n =>
        injection h with hword
        exact absurd hword.symm (text_uint_ne_single n x)
      | float y =>
        injection h with hword
        exact .float (Single.text_eq_text_iff.mp hword)
      | float3 v => cases h
    | float3 v =>
      cases b with
      | uint n => cases h
      | float y => cases h
      | float3 w =>
        simp only [formula, Formula.call.injEq, Formula.word.injEq, List.cons.injEq,
          Single.text_eq_text_iff] at h
        obtain ⟨-, hx, hy, hz, -⟩ := h
        exact .float3 hx hy hz
  · intro h
    cases h with
    | uint n => rfl
    | float h => simp only [formula, Single.text_eq_text_iff.mpr h]
    | float3 hx hy hz =>
      simp only [formula, Single.text_eq_text_iff.mpr hx, Single.text_eq_text_iff.mpr hy,
        Single.text_eq_text_iff.mpr hz]

variable (value : Value)

theorem formula_ne_name {name : String} (h : IsName name) : value.formula ≠ .word name := by
  cases value with
  | uint n =>
    intro heq
    injection heq with hword
    exact h.ne_text_uint n hword.symm
  | float x =>
    intro heq
    injection heq with hword
    exact h.ne_text_single x hword.symm
  | float3 v =>
    intro heq
    cases heq

theorem formula_ne_operation (op : Operator) (lhs rhs : Formula) :
    value.formula ≠ .operation op lhs rhs := by
  intro heq
  cases value <;> cases heq

theorem formula_ne_call {function : String} (h : function ≠ "float3") (first : Formula)
    (more : List Formula) : value.formula ≠ .call function first more := by
  intro heq
  cases value with
  | uint n => cases heq
  | float x => cases heq
  | float3 v =>
    injection heq with hfunction
    exact h hfunction.symm

end Value

end EffectGraph
