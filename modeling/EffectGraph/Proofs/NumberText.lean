import EffectGraph.Proofs.Decimals

/-!
# `Proofs.NumberText` — the text of a number determines it

The text of a number other than `nan` is a minus sign or none, and then the text of its magnitude,
which is a numeral or the word for infinity (`Single.toList_text`). Both are read back
(`Single.ofChars_text`), so two numbers have one text only when they are the same bit by bit, the
signs of zeros included, or are both not a number (`Single.text_eq_text_iff`).

Beside other words, a number is known by its first character (`Single.beginsNumber_or_eq`) and by
the characters that it is written with (`Single.mem_text`).
-/

namespace EffectGraph.Single

open BinaryFormat (single)

/-! ## Magnitudes -/

/-- The text of a number without its sign, by its code. -/
def magnitude (code : Nat) : String :=
  if code < single.infinity then
    if code = 0 then "0.0" else formulaStyle.write (single.shortest formulaStyle.tie code)
  else "inf"

variable {code : Nat}

/-- **A finite magnitude is written as a numeral that reads as its code.** -/
theorem exists_numeral (h : code < single.infinity) :
    ∃ n : Numeral, (magnitude code).toList = n.chars ∧ n.whole ≠ [] ∧
      (Numeral.read n.chars).code single = code := by
  unfold magnitude
  rw [if_pos h]
  by_cases hzero : code = 0
  · subst hzero
    rw [if_pos rfl]
    refine ⟨⟨['0'], ['0'], none, isDigit_zeros 2⟩, rfl, List.cons_ne_nil _ _, ?_⟩
    exact Decimal.code_of_significand_eq_zero single rfl
  · have hcode : (single.shortest formulaStyle.tie code).code single = code :=
      single.code_shortest formulaStyle.tie h.le
    -- the decimal is not zero, for it does not read as zero
    have hsignificand : (single.shortest formulaStyle.tie code).significand ≠ 0 := by
      intro hnone
      apply hzero
      rw [← hcode]
      exact Decimal.code_of_significand_eq_zero single hnone
    obtain ⟨n, hchars, hvalue, hwhole⟩ := formulaStyle.exists_numeral rfl hsignificand
    have hread : (Numeral.read n.chars).value = (single.shortest formulaStyle.tie code).value :=
      n.value_read.trans hvalue
    refine ⟨n, ?_, hwhole, ?_⟩
    · rw [if_neg hzero, hchars]
    · rw [Decimal.code_congr single hread, hcode]

theorem magnitude_of_infinity_le (h : single.infinity ≤ code) : magnitude code = "inf" := by
  unfold magnitude
  rw [if_neg (Nat.not_lt.mpr h)]

/-- A magnitude begins with a digit or is infinite. -/
theorem exists_magnitude_eq_cons (code : Nat) :
    ∃ c rest, (magnitude code).toList = c :: rest ∧
      (c.isDigit = true ∨ magnitude code = "inf") := by
  rcases Nat.lt_or_ge code single.infinity with hfinite | hinfinite
  · obtain ⟨n, hchars, hwhole, -⟩ := exists_numeral hfinite
    obtain ⟨c, rest, hcons, hdigit⟩ := Numeral.exists_chars_eq_cons hwhole
    exact ⟨c, rest, hchars.trans hcons, .inl hdigit⟩
  · have hinf : magnitude code = "inf" := magnitude_of_infinity_le hinfinite
    refine ⟨'i', ['n', 'f'], ?_, .inr hinf⟩
    rw [hinf]
    rfl

/-- The code that the text of a magnitude stands for. -/
def readMagnitude (cs : List Char) : Nat :=
  if cs = ['i', 'n', 'f'] then single.infinity else (Numeral.read cs).code single

theorem readMagnitude_magnitude (h : code ≤ single.infinity) :
    readMagnitude (magnitude code).toList = code := by
  unfold readMagnitude
  rcases Nat.lt_or_ge code single.infinity with hfinite | hinfinite
  · obtain ⟨n, hchars, hwhole, hcode⟩ := exists_numeral hfinite
    have hnumber : n.chars ≠ ['i', 'n', 'f'] := by
      intro heq
      obtain ⟨c, rest, hcons, hdigit⟩ := Numeral.exists_chars_eq_cons hwhole
      rw [heq] at hcons
      cases hcons
      exact absurd hdigit (by decide)
    rw [hchars, if_neg hnumber, hcode]
  · rw [magnitude_of_infinity_le hinfinite]
    exact Nat.le_antisymm hinfinite h

/-! ## Numbers -/

variable {x y : Float32}

theorem text_of_isNaN (h : x.isNaN = true) : text x = "NaN" := by
  unfold text
  rw [if_pos h]

/-- The text of a number is its sign and its magnitude. -/
theorem toList_text (h : x.isNaN = false) :
    (text x).toList = if isNegative x then '-' :: (magnitude (Single.code x)).toList
      else (magnitude (Single.code x)).toList := by
  have hsigned :
      text x = (if isNegative x then "-" else "") ++ magnitude (Single.code x) := by
    unfold text magnitude
    rw [h, if_neg Bool.false_ne_true]
    by_cases hfinite : Single.code x < single.infinity
    · have hdecided : isFinite x = true := decide_eq_true hfinite
      rw [if_pos hfinite, if_pos hdecided]
      rfl
    · have hdecided : ¬ isFinite x = true := fun h => hfinite (of_decide_eq_true h)
      rw [if_neg hfinite, if_neg hdecided]
      cases isNegative x with
      | true => rfl
      | false => rfl
  rw [hsigned, String.toList_append]
  cases isNegative x with
  | true => rfl
  | false => rfl

/-- The number that a text stands for. -/
def ofChars (cs : List Char) : Float32 :=
  if cs.head? = some '-' then ofCode true (readMagnitude cs.tail)
  else ofCode false (readMagnitude cs)

/-- **The text of a number reads as the number**, with the sign of a zero too. -/
theorem ofChars_text (h : x.isNaN = false) : ofChars (text x).toList = x := by
  have hcode : readMagnitude (magnitude (Single.code x)).toList = Single.code x :=
    readMagnitude_magnitude (code_le_infinity h)
  have hself : ofCode (isNegative x) (Single.code x) = x := ofCode_code x
  rw [toList_text h]
  unfold ofChars
  cases hneg : isNegative x with
  | true =>
    rw [hneg] at hself
    rw [if_pos rfl, List.head?_cons, if_pos rfl, List.tail_cons, hcode, hself]
  | false =>
    rw [hneg] at hself
    -- a magnitude has no sign of its own
    have hhead : (magnitude (Single.code x)).toList.head? ≠ some '-' := by
      obtain ⟨c, rest, hcons, hdigit | hinf⟩ := exists_magnitude_eq_cons (Single.code x)
      · rw [hcons]
        intro heq
        cases heq
        exact absurd hdigit (by decide)
      · rw [hinf]
        decide
    rw [if_neg Bool.false_ne_true, if_neg hhead, hcode, hself]

/-! ## The form of the texts -/

/-- The characters that numbers are written with besides digits. -/
def marks : List Char := ['.', 'e', '-', 'i', 'n', 'f', 'N', 'a']

theorem mem_magnitude {c : Char} (h : c ∈ (magnitude code).toList) :
    c.isDigit = true ∨ c ∈ marks := by
  rcases Nat.lt_or_ge code single.infinity with hfinite | hinfinite
  · obtain ⟨n, hchars, -, -⟩ := exists_numeral hfinite
    rw [hchars] at h
    rcases Numeral.mem_chars h with hdigit | hmark
    · exact .inl hdigit
    · exact .inr (List.mem_append_left _ hmark)
  · rw [magnitude_of_infinity_le hinfinite] at h
    have hmarks : ∀ c ∈ "inf".toList, c ∈ marks := by simp [marks]
    exact .inr (hmarks c h)

/-- A number is written with digits and a few marks. -/
theorem mem_text {c : Char} (h : c ∈ (text x).toList) : c.isDigit = true ∨ c ∈ marks := by
  cases hnan : x.isNaN with
  | true =>
    have hmarks : ∀ c ∈ "NaN".toList, c ∈ marks := by simp [marks]
    rw [text_of_isNaN hnan] at h
    exact .inr (hmarks c h)
  | false =>
    rw [toList_text hnan] at h
    cases hneg : isNegative x with
    | true =>
      rw [hneg, if_pos rfl] at h
      rcases List.mem_cons.mp h with rfl | hmagnitude
      · exact .inr (by simp [marks])
      · exact mem_magnitude hmagnitude
    | false =>
      rw [hneg, if_neg Bool.false_ne_true] at h
      exact mem_magnitude h

/-- Whether a text begins with a digit or with a minus sign. -/
def BeginsNumber (cs : List Char) : Prop := ∃ c rest, cs = c :: rest ∧ (c.isDigit = true ∨ c = '-')

theorem beginsNumber_or_eq_inf (h : x.isNaN = false) :
    BeginsNumber (text x).toList ∨ text x = "inf" := by
  have hchars := toList_text h
  cases hneg : isNegative x with
  | true =>
    rw [hneg, if_pos rfl] at hchars
    exact .inl ⟨'-', _, hchars, .inr rfl⟩
  | false =>
    rw [hneg, if_neg Bool.false_ne_true] at hchars
    obtain ⟨c, rest, hcons, hdigit | hinf⟩ := exists_magnitude_eq_cons (Single.code x)
    · exact .inl ⟨c, rest, hchars.trans hcons, .inl hdigit⟩
    · refine .inr (String.toList_inj.mp ?_)
      rw [hchars, hinf]

/-- A number begins as numbers do unless it is one of two words. -/
theorem beginsNumber_or_eq (x : Float32) :
    BeginsNumber (text x).toList ∨ text x = "inf" ∨ text x = "NaN" := by
  cases hnan : x.isNaN with
  | true => exact .inr (.inr (text_of_isNaN hnan))
  | false =>
    rcases beginsNumber_or_eq_inf hnan with hbegins | hinf
    · exact .inl hbegins
    · exact .inr (.inl hinf)

theorem isNaN_iff : x.isNaN = true ↔ text x = "NaN" := by
  refine ⟨text_of_isNaN, fun htext => ?_⟩
  cases hnan : x.isNaN with
  | true => rfl
  | false =>
    exfalso
    rcases beginsNumber_or_eq_inf hnan with ⟨c, rest, hcons, hfirst⟩ | hinf
    · rw [htext] at hcons
      cases hcons
      exact absurd hfirst (by decide)
    · rw [htext] at hinf
      exact absurd hinf (by decide)

/-! ## Numbers of one text -/

/-- Whether two numbers are the same bit by bit or are both not a number. -/
def Alike (x y : Float32) : Prop := x = y ∨ x.isNaN = true ∧ y.isNaN = true

/-- **Two numbers have one text only when they are alike.** -/
theorem text_eq_text_iff : text x = text y ↔ Alike x y := by
  constructor
  · intro h
    cases hx : x.isNaN with
    | true =>
      have hy : y.isNaN = true := by rw [isNaN_iff, ← h, text_of_isNaN hx]
      exact .inr ⟨hx, hy⟩
    | false =>
      have hy : y.isNaN = false := by
        rw [← Bool.not_eq_true, isNaN_iff, ← h, ← isNaN_iff, hx]
        exact Bool.false_ne_true
      refine .inl ?_
      rw [← ofChars_text hx, h, ofChars_text hy]
  · intro h
    rcases h with rfl | ⟨hx, hy⟩
    · rfl
    · rw [text_of_isNaN hx, text_of_isNaN hy]

end EffectGraph.Single
