import EffectGraph.Expression.Basic

/-!
# `Proofs.Formulas` — formulas are read off without ambiguity

A formula is a tree of words, calls and operations in parentheses. Whatever stands after a formula
inside another one begins with a closing parenthesis, a comma or a space, so the word that a formula
begins with ends where it must (`word_append_inj`), and what follows the word tells the three kinds
apart: nothing that belongs to the formula, an opening parenthesis, or no word at all before one.

By induction on the tree, a formula ends where it must too (`Formula.Spelled.readsOff`), and so no
two trees have one text (`Formula.chars_inj`).
-/

namespace EffectGraph

/-! ## Words -/

/-- The characters that end a word. -/
def delimiters : List Char := ['(', ')', ',', ' ']

/-- Whether a text is a word: it has a character, and none that ends words. -/
structure IsWord (w : String) : Prop where
  ne_empty : w ≠ ""
  not_delimiter : ∀ c ∈ w.toList, c ∉ delimiters

/-- Whether a text is empty or begins with one of the given characters. -/
def BeginsWith (firsts cs : List Char) : Prop := ∀ c ∈ cs.head?, c ∈ firsts

theorem beginsWith_nil (firsts : List Char) : BeginsWith firsts [] := by
  rintro c ⟨⟩

theorem beginsWith_cons {firsts : List Char} {c : Char} (h : c ∈ firsts) (cs : List Char) :
    BeginsWith firsts (c :: cs) := by
  rintro c ⟨⟩
  exact h

theorem takeWhile_append_rest {w rest : List Char} (hw : ∀ c ∈ w, c ∉ delimiters)
    (hrest : BeginsWith delimiters rest) :
    (w ++ rest).takeWhile (fun c => decide (c ∉ delimiters)) = w := by
  rw [List.takeWhile_append_of_pos (fun c hc => decide_eq_true (hw c hc))]
  cases rest with
  | nil => simp
  | cons c rest =>
    have hc : c ∈ delimiters := hrest c rfl
    simp [hc]

/-- **A word is read off** in front of nothing or of a character that ends words. -/
theorem word_append_inj {v w r s : List Char} (hv : ∀ c ∈ v, c ∉ delimiters)
    (hw : ∀ c ∈ w, c ∉ delimiters) (hr : BeginsWith delimiters r) (hs : BeginsWith delimiters s)
    (h : v ++ r = w ++ s) : v = w ∧ r = s := by
  have hword : v = w := by
    rw [← takeWhile_append_rest hv hr, h, takeWhile_append_rest hw hs]
  subst hword
  exact ⟨rfl, List.append_cancel_left h⟩

namespace Operator

theorem not_delimiter_of_mem_symbol (op : Operator) : ∀ c ∈ op.symbol.toList, c ∉ delimiters := by
  cases op <;> simp [symbol, delimiters]

theorem symbol_inj {op op' : Operator} (h : op.symbol = op'.symbol) : op = op' := by
  cases op <;> cases op' <;> simp [symbol] at h ⊢

end Operator

/-! ## Formulas -/

/-- A formula as a tree. -/
inductive Formula where
  /-- A constant or a name. -/
  | word (w : String)
  /-- A call with at least one argument. -/
  | call (function : String) (first : Formula) (more : List Formula)
  /-- An operation in parentheses. -/
  | operation (op : Operator) (lhs rhs : Formula)

namespace Formula

mutual

/-- The text of a formula. -/
def chars : Formula → List Char
  | .word w => w.toList
  | .call function first more =>
    function.toList ++ '(' :: (first.chars ++ (moreChars more ++ [')']))
  | .operation op lhs rhs =>
    '(' :: (lhs.chars ++ ' ' :: (op.symbol.toList ++ ' ' :: (rhs.chars ++ [')'])))

/-- The text of the arguments after the first one. -/
def moreChars : List Formula → List Char
  | [] => []
  | argument :: rest => ',' :: ' ' :: (argument.chars ++ moreChars rest)

end

theorem moreChars_eq (arguments : List Formula) :
    moreChars arguments = (arguments.map chars).flatMap ([',', ' '] ++ ·) := by
  induction arguments with
  | nil => simp [moreChars]
  | cons argument rest ih => simp [moreChars, ih]

/-- Whether the words and functions of a formula are words. -/
inductive Spelled : Formula → Prop where
  | word {w : String} (h : IsWord w) : Spelled (.word w)
  | call {function : String} {first : Formula} {more : List Formula} (h : IsWord function)
      (hfirst : Spelled first) (hmore : ∀ argument ∈ more, Spelled argument) :
      Spelled (.call function first more)
  | operation {op : Operator} {lhs rhs : Formula} (hlhs : Spelled lhs) (hrhs : Spelled rhs) :
      Spelled (.operation op lhs rhs)

/-! ### The beginning of a formula -/

/-- The word that a formula begins with. -/
def lead : Formula → String
  | .word w => w
  | .call function _ _ => function
  | .operation _ _ _ => ""

/-- What follows that word. -/
def body : Formula → List Char
  | .word _ => []
  | .call _ first more => '(' :: (first.chars ++ (moreChars more ++ [')']))
  | .operation op lhs rhs =>
    '(' :: (lhs.chars ++ ' ' :: (op.symbol.toList ++ ' ' :: (rhs.chars ++ [')'])))

/-- The characters that may stand after a formula. -/
def closers : List Char := [')', ',', ' ']

variable {a b : Formula} {r s : List Char}

theorem chars_eq (a : Formula) : a.chars = a.lead.toList ++ a.body := by
  cases a with
  | word w => simp [chars, lead, body]
  | call function first more => simp [chars, lead, body]
  | operation op lhs rhs => simp [chars, lead, body]

theorem delimited_of_closed (h : BeginsWith closers r) : BeginsWith delimiters r :=
  fun c hc => List.mem_cons_of_mem _ (h c hc)

/-- No parenthesis opens after a formula. -/
theorem ne_open_of_closed (h : BeginsWith closers r) (rest : List Char) : '(' :: rest ≠ r := by
  rintro rfl
  exact absurd (h '(' rfl) (by decide)

theorem Spelled.not_delimiter (h : a.Spelled) : ∀ c ∈ a.lead.toList, c ∉ delimiters := by
  cases h with
  | word h => exact h.not_delimiter
  | call h => exact h.not_delimiter
  | operation =>
    intro c hc
    cases hc

theorem delimited_body_append (a : Formula) (h : BeginsWith closers r) :
    BeginsWith delimiters (a.body ++ r) := by
  cases a with
  | word w => exact delimited_of_closed h
  | call function first more => exact beginsWith_cons (by decide) _
  | operation op lhs rhs => exact beginsWith_cons (by decide) _

/-- The word at the beginning is read off, whatever the kinds of the formulas. -/
theorem lead_inj (ha : a.Spelled) (hb : b.Spelled) (hr : BeginsWith closers r)
    (hs : BeginsWith closers s) (h : a.chars ++ r = b.chars ++ s) :
    a.lead = b.lead ∧ a.body ++ r = b.body ++ s := by
  rw [a.chars_eq, b.chars_eq, List.append_assoc, List.append_assoc] at h
  obtain ⟨hlead, hbody⟩ := word_append_inj ha.not_delimiter hb.not_delimiter
    (a.delimited_body_append hr) (b.delimited_body_append hs) h
  exact ⟨String.toList_inj.mp hlead, hbody⟩

/-! ### The end of a formula -/

/-- Whether a formula is read off in front of whatever may stand after it. -/
def ReadsOff (a : Formula) : Prop :=
  ∀ (b : Formula) (r s : List Char), b.Spelled → BeginsWith closers r → BeginsWith closers s →
    a.chars ++ r = b.chars ++ s → a = b ∧ r = s

theorem closed_moreChars (arguments : List Formula) (rest : List Char) :
    BeginsWith closers (moreChars arguments ++ ')' :: rest) := by
  cases arguments with
  | nil => exact beginsWith_cons (by decide) _
  | cons argument arguments => exact beginsWith_cons (by decide) _

/-- Arguments are read off up to the parenthesis after them. -/
theorem moreChars_append_inj {as bs : List Formula} (has : ∀ a ∈ as, a.ReadsOff)
    (hbs : ∀ b ∈ bs, b.Spelled) (h : moreChars as ++ ')' :: r = moreChars bs ++ ')' :: s) :
    as = bs ∧ r = s := by
  induction as generalizing bs with
  | nil =>
    cases bs with
    | nil => exact ⟨rfl, List.tail_eq_of_cons_eq h⟩
    | cons b bs => cases h
  | cons a as ih =>
    cases bs with
    | nil => cases h
    | cons b bs =>
      obtain ⟨ha, hreads⟩ := List.forall_mem_cons.mp has
      obtain ⟨hb, hspelled⟩ := List.forall_mem_cons.mp hbs
      have hargument : a.chars ++ (moreChars as ++ ')' :: r) =
          b.chars ++ (moreChars bs ++ ')' :: s) := by
        simpa [moreChars] using h
      obtain ⟨rfl, hrest⟩ :=
        ha b _ _ hb (closed_moreChars as r) (closed_moreChars bs s) hargument
      obtain ⟨rfl, hend⟩ := ih hreads hspelled hrest
      exact ⟨rfl, hend⟩

theorem readsOff_word {w : String} (h : IsWord w) : (word w).ReadsOff := by
  intro b r s hb hr hs heq
  obtain ⟨hlead, hbody⟩ := lead_inj (.word h) hb hr hs heq
  cases hb with
  | word => exact ⟨congrArg word hlead, hbody⟩
  | call => exact absurd hbody.symm (ne_open_of_closed hr _)
  | operation => exact absurd hlead h.ne_empty

theorem readsOff_call {function : String} {first : Formula} {more : List Formula}
    (h : (call function first more).Spelled) (hname : IsWord function) (hfirst : first.ReadsOff)
    (hmore : ∀ argument ∈ more, argument.ReadsOff) : (call function first more).ReadsOff := by
  intro b r s hb hr hs heq
  obtain ⟨hlead, hbody⟩ := lead_inj h hb hr hs heq
  cases hb with
  | word => exact absurd hbody (ne_open_of_closed hs _)
  | @call function' first' more' hname' hfirst' hmore' =>
    obtain rfl : function = function' := hlead
    have harguments : first.chars ++ (moreChars more ++ ')' :: r) =
        first'.chars ++ (moreChars more' ++ ')' :: s) := by
      simpa [body] using hbody
    obtain ⟨rfl, hrest⟩ :=
      hfirst first' _ _ hfirst' (closed_moreChars more r) (closed_moreChars more' s) harguments
    obtain ⟨rfl, hend⟩ := moreChars_append_inj hmore hmore' hrest
    exact ⟨rfl, hend⟩
  | operation => exact absurd hlead hname.ne_empty

theorem readsOff_operation {op : Operator} {lhs rhs : Formula}
    (h : (operation op lhs rhs).Spelled) (hlhs : lhs.ReadsOff) (hrhs : rhs.ReadsOff) :
    (operation op lhs rhs).ReadsOff := by
  intro b r s hb hr hs heq
  obtain ⟨hlead, hbody⟩ := lead_inj h hb hr hs heq
  cases hb with
  | word hw => exact absurd hlead.symm hw.ne_empty
  | call hname => exact absurd hlead.symm hname.ne_empty
  | @operation op' lhs' rhs' hlhs' hrhs' =>
    have hspace : ∀ rest, BeginsWith closers (' ' :: rest) := beginsWith_cons (by decide)
    have hclose : ∀ rest, BeginsWith closers (')' :: rest) := beginsWith_cons (by decide)
    have hoperands : lhs.chars ++ ' ' :: (op.symbol.toList ++ ' ' :: (rhs.chars ++ ')' :: r)) =
        lhs'.chars ++ ' ' :: (op'.symbol.toList ++ ' ' :: (rhs'.chars ++ ')' :: s)) := by
      simpa [body] using hbody
    obtain ⟨rfl, hafter⟩ := hlhs lhs' _ _ hlhs' (hspace _) (hspace _) hoperands
    -- the symbol stands between spaces, so it is read off as a word
    obtain ⟨hsymbol, hrest⟩ := word_append_inj op.not_delimiter_of_mem_symbol
      op'.not_delimiter_of_mem_symbol (delimited_of_closed (hspace _))
      (delimited_of_closed (hspace _)) (List.cons.inj hafter).2
    obtain rfl : op = op' := Operator.symbol_inj (String.toList_inj.mp hsymbol)
    obtain ⟨rfl, hend⟩ := hrhs rhs' _ _ hrhs' (hclose _) (hclose _) (List.cons.inj hrest).2
    exact ⟨rfl, (List.cons.inj hend).2⟩

/-- **A spelled formula is read off** in front of whatever may stand after it. -/
theorem Spelled.readsOff (h : a.Spelled) : a.ReadsOff := by
  induction h with
  | word h => exact readsOff_word h
  | call h hfirst hmore ihfirst ihmore =>
    exact readsOff_call (.call h hfirst hmore) h ihfirst ihmore
  | operation hlhs hrhs ihlhs ihrhs =>
    exact readsOff_operation (.operation hlhs hrhs) ihlhs ihrhs

/-- **Spelled formulas of one text are one formula.** -/
theorem chars_inj (ha : a.Spelled) (hb : b.Spelled) (h : a.chars = b.chars) : a = b := by
  have hnothing : BeginsWith closers [] := beginsWith_nil closers
  exact (ha.readsOff b [] [] hb hnothing hnothing (by rw [h])).1

end Formula

end EffectGraph
