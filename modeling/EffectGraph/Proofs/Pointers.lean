import EffectGraph.PostProcess.Property
import EffectGraph.Proofs.Places

/-!
# `Proofs.Pointers` — a handle addresses the place that its names lead to

A pointer keeps a list of names in one text. Written names hold no slash and every `~` in them is
followed by a digit that says what it stands for, so the text can be taken apart again, whatever
characters the names have: `Pointer.names?_ofNames` for the whole list and `Pointer.splitLast?_append`
for its last name. A handle that was made by descending along names (`Property.ofNames`) is thereby as
good as the names themselves.
-/

namespace EffectGraph

namespace Pointer

/-! ## One name -/

theorem replacePair_cons {digit c a : Char} {rest : List Char} (h : a ≠ '~') :
    replacePair digit c (a :: rest) = a :: replacePair digit c rest := by
  cases rest with
  | nil => rfl
  | cons b rest => rw [replacePair, if_neg (fun hab => h hab.1)]

theorem replacePair_pair {digit c : Char} {rest : List Char} :
    replacePair digit c ('~' :: digit :: rest) = c :: replacePair digit c rest := by
  rw [replacePair, if_pos ⟨rfl, rfl⟩]

theorem replacePair_other {digit c b : Char} {rest : List Char} (h : b ≠ digit) :
    replacePair digit c ('~' :: b :: rest) = '~' :: replacePair digit c (b :: rest) := by
  rw [replacePair, if_neg (fun hb => h hb.2)]

/-- The written form of a character once the slashes have been put back. -/
def escapeTilde (c : Char) : List Char := if c = '~' then ['~', '0'] else [c]

/-- Putting the slashes back leaves every `~` as it was written. -/
theorem replacePair_slash_escape (name : List Char) :
    replacePair '1' '/' (escape name) = name.flatMap escapeTilde := by
  induction name with
  | nil => rfl
  | cons c rest ih =>
    rw [escape, List.flatMap_cons, ← escape, List.flatMap_cons, ← ih, escapeChar, escapeTilde]
    by_cases ht : c = '~'
    · rw [if_pos ht, if_pos ht]
      show replacePair '1' '/' ('~' :: '0' :: escape rest) = _
      rw [replacePair_other (by decide), replacePair_cons (by decide)]
      rfl
    · rw [if_neg ht, if_neg ht]
      by_cases hs : c = '/'
      · rw [if_pos hs, hs]
        exact replacePair_pair
      · rw [if_neg hs]
        exact replacePair_cons ht

theorem replacePair_tilde_escapeTilde (name : List Char) :
    replacePair '0' '~' (name.flatMap escapeTilde) = name := by
  induction name with
  | nil => rfl
  | cons c rest ih =>
    rw [List.flatMap_cons, escapeTilde]
    by_cases ht : c = '~'
    · rw [if_pos ht, ht]
      show replacePair '0' '~' ('~' :: '0' :: rest.flatMap escapeTilde) = _
      rw [replacePair_pair, ih]
    · rw [if_neg ht]
      show replacePair '0' '~' (c :: rest.flatMap escapeTilde) = _
      rw [replacePair_cons ht, ih]

/-- **A written name stands for itself.** -/
theorem unescape_escape (name : List Char) : unescape (escape name) = name := by
  rw [unescape, replacePair_slash_escape, replacePair_tilde_escapeTilde]

theorem slash_not_mem_escape (name : List Char) : '/' ∉ escape name := by
  intro h
  obtain ⟨c, -, hc⟩ := List.mem_flatMap.mp h
  rw [escapeChar] at hc
  split at hc
  next => exact absurd hc (by decide)
  next =>
    split at hc
    next => exact absurd hc (by decide)
    next hs => exact hs (List.mem_singleton.mp hc).symm

/-! ## Lists of names -/

/-- The pointer of a list of names. -/
def ofNames (names : List String) : List Char :=
  names.flatMap fun name => '/' :: escape name.toList

theorem splitOn_ofNames (names : List String) :
    (ofNames names).splitOn '/' = [] :: names.map fun name => escape name.toList := by
  have hjoined : ofNames names = ['/'].intercalate ([] :: names.map fun name => escape name.toList) := by
    rw [intercalate_cons, List.flatMap_map]
    rfl
  rw [hjoined]
  refine List.splitOn_intercalate '/' ?_ (by simp)
  intro part hpart
  rcases List.mem_cons.mp hpart with rfl | hpart
  · simp
  · obtain ⟨name, -, rfl⟩ := List.mem_map.mp hpart
    exact slash_not_mem_escape name.toList

/-- **A pointer stands for the names that it was made of.** -/
theorem names?_ofNames (names : List String) : names? (ofNames names) = some names := by
  have hname : ∀ name : String, String.ofList (unescape (escape name.toList)) = name := by
    intro name
    rw [unescape_escape, String.ofList_toList]
  rw [names?, splitOn_ofNames]
  cases names with
  | nil => rfl
  | cons name rest => simp [hname, Function.comp_def]

/-- The last name of a pointer stands after its last slash. -/
theorem splitLast?_append {parent last : List Char} (h : '/' ∉ last) :
    splitLast? (parent ++ '/' :: last) = some (parent, last) := by
  have hlast : ∀ c ∈ last.reverse, (c != '/') = true := by
    intro c hc
    rw [List.mem_reverse] at hc
    exact bne_iff_ne.mpr (fun he => h (he ▸ hc))
  rw [splitLast?, List.reverse_append, List.reverse_cons, List.append_assoc,
    List.dropWhile_append_of_pos hlast, List.takeWhile_append_of_pos hlast]
  simp

end Pointer

/-! ## Handles -/

namespace Property

/-- The handle that is reached from the whole document by descending along names. -/
def ofNames (names : List String) : Property := names.foldl find root

variable {names parent : List String} {name last : String} {document value : Json}

theorem ofNames_append_singleton : ofNames (names ++ [name]) = (ofNames names).find name := by
  rw [ofNames, List.foldl_append]
  rfl

theorem pointer_foldl_find (property : Property) (names : List String) :
    (names.foldl find property).pointer.toList =
      property.pointer.toList ++ Pointer.ofNames names := by
  induction names generalizing property with
  | nil => simp [Pointer.ofNames]
  | cons name rest ih =>
    rw [List.foldl_cons, ih, find, String.toList_append, String.toList_ofList]
    simp [Pointer.ofNames]

/-- A handle holds the pointer of its names. -/
theorem toList_pointer_ofNames (names : List String) :
    (ofNames names).pointer.toList = Pointer.ofNames names :=
  pointer_foldl_find root names

/-- Different lists of names make different handles. -/
theorem pointer_ofNames_inj {others : List String} :
    (ofNames others).pointer = (ofNames names).pointer ↔ others = names := by
  constructor
  · intro h
    have hpointer : Pointer.ofNames others = Pointer.ofNames names := by
      rw [← toList_pointer_ofNames, ← toList_pointer_ofNames, h]
    have hnames : some others = some names := by
      rw [← Pointer.names?_ofNames, ← Pointer.names?_ofNames, hpointer]
    exact Option.some.inj hnames
  · rintro rfl
    rfl

theorem splitLast?_ofNames :
    Pointer.splitLast? (ofNames (parent ++ [last])).pointer.toList =
      some (Pointer.ofNames parent, Pointer.escape last.toList) := by
  have hlast : Pointer.ofNames (parent ++ [last]) =
      Pointer.ofNames parent ++ '/' :: Pointer.escape last.toList := by
    simp [Pointer.ofNames]
  rw [toList_pointer_ofNames, hlast,
    Pointer.splitLast?_append (Pointer.slash_not_mem_escape last.toList)]

/-- The name of a handle is the last of its names. -/
theorem name_ofNames_append : (ofNames (parent ++ [last])).name = last := by
  rw [Property.name, splitLast?_ofNames]
  show String.ofList (Pointer.unescape (Pointer.escape last.toList)) = last
  rw [Pointer.unescape_escape, String.ofList_toList]

theorem resolve?_ofNames (names : List String) (document : Json) :
    Pointer.resolve? (ofNames names).pointer document = Json.follow? names document := by
  rw [Pointer.resolve?, toList_pointer_ofNames, Pointer.names?_ofNames, Option.bind_some]

theorem get_eq_ok : (ofNames names).get document = .ok value ↔
    Json.follow? names document = some value := by
  rw [get, resolve?_ofNames]
  cases Json.follow? names document <;> simp

theorem get_eq_error {e : PropertyError} : (ofNames names).get document = .error e ↔
    e = .missing (ofNames names).pointer ∧ Json.follow? names document = none := by
  rw [get, resolve?_ofNames]
  cases Json.follow? names document <;> simp [eq_comm]

/-- **A handle addresses the place that its names lead to.** Whatever characters the names have,

    * the name of the handle is the last of them, and empty for the whole document;
    * no other list of names makes a handle of the same pointer;
    * reading gives the value that the names lead to one by one, and fails, with the whole pointer,
      exactly when some name leads nowhere from the place that the ones before it lead to. -/
theorem addresses_by_names (names : List String) :
    (ofNames names).name = names.getLastD "" ∧
    (∀ others, (ofNames others).pointer = (ofNames names).pointer ↔ others = names) ∧
    ∀ document,
      (∀ value, (ofNames names).get document = .ok value ↔ Json.Walk names document value) ∧
      (∀ e, (ofNames names).get document = .error e ↔
        e = .missing (ofNames names).pointer ∧ Json.Stops names document) := by
  refine ⟨?name, fun others => pointer_ofNames_inj, fun document => ⟨?found, ?missing⟩⟩
  case name =>
    rcases names.eq_nil_or_concat with rfl | ⟨parent, last, rfl⟩
    · rfl
    · rw [List.concat_eq_append, name_ofNames_append, List.getLastD_concat]
  case found =>
    intro value
    rw [get_eq_ok, Json.follow?_eq_some]
  case missing =>
    intro e
    rw [get_eq_error, Json.follow?_eq_none]

/-- The names `a` and `b` are kept apart from the one name `a/b`, and the name `~1` from a slash. -/
example : (ofNames ["a", "b"]).pointer = "/a/b" ∧ (ofNames ["a/b"]).pointer = "/a~1b" ∧
    (ofNames ["~1", ""]).pointer = "/~01/" := by decide

end Property
end EffectGraph
