import EffectGraph.Proofs.Pointers

/-!
# `Proofs.Writing` — writing a property changes that property and nothing else

A property is written by giving the object that holds it another member. So there has to be such an
object; if there is none, the error says what stands in its place (`set_eq_error`). If there is one, the
new value is read back through the same handle (`get_set_self`), and a handle of diverging names reads
what it read before (`get_set_of_diverges`). Only two kinds of handles may see the new value: those that
lead to something the property is part of, and those that lead to a part of the property.

A write works on the document in its place, so a failure could leave it half written. It does not: what
is in the way of a write is handed back as it was found, and a place that is given back its own value
leaves the document as it was (`FailsInPlace` and its lemmas).
-/

namespace EffectGraph

/-! ## Failures -/

/-- A failure of the step leaves its state as it was. -/
def FailsInPlace {ε σ α : Type} (step : EStateM ε σ α) : Prop :=
  ∀ state e left, step.run state = .error e left → left = state

/-- A step that fails in place on a part of a document fails in place on the whole. -/
theorem FailsInPlace.lend {ε α : Type} {pointer : List Char} {missing : ε} {action : EStateM ε Json α}
    (h : FailsInPlace action) : FailsInPlace (Pointer.lend pointer missing action) := by
  intro document e left hrun
  unfold EStateM.run Pointer.lend at hrun
  split at hrun
  next =>
    cases hrun
    rfl
  next names _ =>
    split at hrun
    next =>
      cases hrun
      rfl
    next place hplace =>
      split at hrun
      next => cases hrun
      next e' given hfail =>
        -- what had stood in the place is put back there
        obtain rfl : given = place := h place e' given hfail
        cases hrun
        exact Json.replaceAt_follow? hplace

namespace Property

variable {names others parent : List String} {last : String} {document written value : Json}

theorem failsInPlace_insertMember {name : String} {notAnObject : PropertyError} :
    FailsInPlace (insertMember name value notAnObject) := by
  intro place e left h
  cases place with
  | object members => cases h
  | _ => cases h; rfl

/-- **A write that fails leaves the document as it was.** -/
theorem failsInPlace_write (property : Property) (value : Json) :
    FailsInPlace (property.write value) := by
  unfold write
  cases Pointer.splitLast? property.pointer.toList with
  | none =>
    intro document e left h
    cases h
  | some split => exact failsInPlace_insertMember.lend

theorem failsInPlace_writeEncoded (property : Property) (encoded : Decoded Json) :
    FailsInPlace (property.writeEncoded encoded) := by
  cases encoded with
  | ok value => exact failsInPlace_write property value
  | error e =>
    intro document e left h
    cases h
    rfl

/-- What a write leaves if it succeeds is what comes of it. -/
theorem run_eq_ok {step : EStateM PropertyError Json Unit} :
    step.run document = .ok () written ↔ outcome step document = .ok written := by
  rw [EStateM.run, outcome]
  cases step document <;> simp

/-- What a write that fails in place leaves is the document that there was. -/
theorem run_eq_error {step : EStateM PropertyError Json Unit} {e : PropertyError} {left : Json}
    (h : FailsInPlace step) :
    step.run document = .error e left ↔ outcome step document = .error e ∧ left = document := by
  show step document = .error e left ↔ _
  rw [outcome]
  cases hrun : step document with
  | ok a written => simp
  | error e' left' =>
    obtain rfl : left' = document := h document e' left' hrun
    simp [eq_comm]

/-! ## When there is something to write to -/

/-- Writing the whole document replaces it. -/
theorem set_root : (ofNames []).set document value = .ok value := rfl

/-- The text of a handle before its last slash is the pointer of the names before the last. -/
theorem ofList_pointer_ofNames (names : List String) :
    String.ofList (Pointer.ofNames names) = (ofNames names).pointer := by
  rw [← toList_pointer_ofNames, String.ofList_toList]

/-- A write gives its parent, the object that it is lent, another member. -/
theorem write_ofNames_append : (ofNames (parent ++ [last])).write value =
    Pointer.lend (Pointer.ofNames parent) (.missing (ofNames parent).pointer)
      (insertMember last value (.notAnObject (ofNames parent).pointer)) := by
  rw [write, splitLast?_ofNames, name_ofNames_append, ← ofList_pointer_ofNames]

/-- A property is written through the member list of the object that its parent leads to. -/
theorem set_eq_ok : (ofNames (parent ++ [last])).set document value = .ok written ↔
    ∃ members, Json.follow? parent document = some (.object members) ∧
      Json.replaceAt parent (.object (Table.insert members last value)) document = written := by
  rw [set, outcome, write_ofNames_append, Pointer.lend]
  simp only [Pointer.names?_ofNames]
  cases Json.follow? parent document with
  | none => simp
  | some found => cases found <;> simp [insertMember]

/-- Without such an object, the error tells what is there instead. -/
theorem set_eq_error {e : PropertyError} :
    (ofNames (parent ++ [last])).set document value = .error e ↔
      (e = .missing (ofNames parent).pointer ∧ Json.follow? parent document = none) ∨
      (e = .notAnObject (ofNames parent).pointer ∧ ∃ found,
        Json.follow? parent document = some found ∧ ∀ members, found ≠ .object members) := by
  rw [set, outcome, write_ofNames_append, Pointer.lend]
  simp only [Pointer.names?_ofNames]
  cases Json.follow? parent document with
  | none => simp [eq_comm]
  | some found => cases found <;> simp [insertMember, eq_comm]

theorem exists_set_iff : (∃ written, (ofNames (parent ++ [last])).set document value = .ok written) ↔
    ∃ members, (ofNames parent).get document = .ok (.object members) := by
  simp only [set_eq_ok, get_eq_ok]
  constructor
  · rintro ⟨written, members, hparent, -⟩
    exact ⟨members, hparent⟩
  · rintro ⟨members, hparent⟩
    exact ⟨_, members, hparent, rfl⟩

theorem set_eq_missing :
    (ofNames (parent ++ [last])).set document value = .error (.missing (ofNames parent).pointer) ↔
      ∃ e, (ofNames parent).get document = .error e := by
  simp only [get_eq_error, exists_eq_left]
  rw [set_eq_error]
  constructor
  · rintro (⟨-, hnone⟩ | ⟨h, -⟩)
    · exact hnone
    · cases h
  · intro hnone
    exact .inl ⟨rfl, hnone⟩

theorem set_eq_notAnObject :
    (ofNames (parent ++ [last])).set document value = .error (.notAnObject (ofNames parent).pointer) ↔
      ∃ found, (ofNames parent).get document = .ok found ∧ ∀ members, found ≠ .object members := by
  simp only [get_eq_ok]
  rw [set_eq_error]
  constructor
  · rintro (⟨h, -⟩ | ⟨-, hfound⟩)
    · cases h
    · exact hfound
  · intro hfound
    exact .inr ⟨rfl, hfound⟩

/-! ## What is read after writing -/

/-- What was written is read back. -/
theorem get_set_self (h : (ofNames names).set document value = .ok written) :
    (ofNames names).get written = .ok value := by
  rw [get_eq_ok]
  rcases names.eq_nil_or_concat with rfl | ⟨parent, last, rfl⟩
  · rw [set_root, Except.ok.injEq] at h
    rw [h]
    rfl
  · rw [List.concat_eq_append] at h ⊢
    obtain ⟨members, hparent, rfl⟩ := set_eq_ok.mp h
    rw [Json.follow?_append, Json.follow?_replaceAt_self hparent, Option.bind_some, Json.follow?_cons,
      Json.step?, Table.get?_insert_self]
    rfl

/-- Diverging names lead to what they led to before. -/
theorem follow?_set_of_diverges (h : (ofNames names).set document value = .ok written)
    (hn : ¬ names <+: others) (ho : ¬ others <+: names) :
    Json.follow? others written = Json.follow? others document := by
  rcases names.eq_nil_or_concat with rfl | ⟨parent, last, rfl⟩
  · exact absurd List.nil_prefix hn
  · rw [List.concat_eq_append] at h hn ho
    obtain ⟨members, hparent, rfl⟩ := set_eq_ok.mp h
    by_cases hp : parent <+: others
    · -- the other names pass through the object too, and leave it by another member
      obtain ⟨rest, rfl⟩ := hp
      rw [List.prefix_append_right_inj] at hn ho
      rw [Json.follow?_append, Json.follow?_append, Json.follow?_replaceAt_self hparent, hparent,
        Option.bind_some, Option.bind_some]
      cases rest with
      | nil => exact absurd List.nil_prefix ho
      | cons other rest =>
        have hne : other ≠ last := by
          rintro rfl
          exact hn (List.cons_prefix_cons.mpr ⟨rfl, List.nil_prefix⟩)
        rw [Json.follow?_cons, Json.follow?_cons, Json.step?, Json.step?, Table.get?_insert_of_ne hne]
    · -- the other names part from the way to the object
      refine Json.follow?_replaceAt_of_diverges hp ?_
      intro h
      exact ho (h.trans (List.prefix_append _ _))

/-- A handle of diverging names reads what it read before, value or error. -/
theorem get_set_of_diverges (h : (ofNames names).set document value = .ok written)
    (hn : ¬ names <+: others) (ho : ¬ others <+: names) :
    (ofNames others).get written = (ofNames others).get document := by
  rw [get, get, resolve?_ofNames, resolve?_ofNames, follow?_set_of_diverges h hn ho]

/-- **Writing a property changes that property and nothing else.** For every document and value,

    * writing the whole document replaces it;
    * any other property can be written exactly when its parent is an object; the error is that the
      parent is missing exactly when there is none, and that it is no object exactly when it is
      something else, under the pointer of the parent in both cases;
    * a failure leaves the document as it was;
    * after a success the property has the value, and what is read through handles whose names neither
      begin with those of the property nor are their beginning is the same as before. -/
theorem set_changes_only_itself (document value : Json) :
    (ofNames []).set document value = .ok value ∧
    (∀ parent last,
      ((∃ written, (ofNames (parent ++ [last])).set document value = .ok written) ↔
        ∃ members, (ofNames parent).get document = .ok (.object members)) ∧
      ((ofNames (parent ++ [last])).set document value = .error (.missing (ofNames parent).pointer) ↔
        ∃ e, (ofNames parent).get document = .error e) ∧
      ((ofNames (parent ++ [last])).set document value =
          .error (.notAnObject (ofNames parent).pointer) ↔
        ∃ found, (ofNames parent).get document = .ok found ∧ ∀ members, found ≠ .object members)) ∧
    (∀ names e left, ((ofNames names).write value).run document = .error e left ↔
      (ofNames names).set document value = .error e ∧ left = document) ∧
    ∀ names written, (ofNames names).set document value = .ok written →
      (ofNames names).get written = .ok value ∧
      ∀ others, ¬ names <+: others → ¬ others <+: names →
        (ofNames others).get written = (ofNames others).get document := by
  refine ⟨set_root, ?outcome, ?failure, ?effect⟩
  case outcome =>
    intro parent last
    exact ⟨exists_set_iff, set_eq_missing, set_eq_notAnObject⟩
  case failure =>
    intro names e left
    exact run_eq_error (failsInPlace_write (ofNames names) value)
  case effect =>
    intro names written h
    refine ⟨get_set_self h, ?_⟩
    intro others hn ho
    exact get_set_of_diverges h hn ho

/-- A list of one camera, whose members have a slash and a tilde for names. -/
def cameras : Json :=
  .object [("cameras", .array [.object [("lut/size", .nat 32), ("~", .bool true)]])]

/-- The size of the camera is written and everything beside it stays, also a second camera that is
    not there. Nothing can be written inside that camera or into the array itself. -/
theorem cameras_set_lutSize : ∃ written,
    (ofNames ["cameras", "0", "lut/size"]).set cameras (.nat 64) = .ok written ∧
      (ofNames ["cameras", "0", "lut/size"]).get written = .ok (.nat 64) ∧
      (ofNames ["cameras", "0", "~"]).get written = (ofNames ["cameras", "0", "~"]).get cameras ∧
      (ofNames ["cameras", "1"]).get written = (ofNames ["cameras", "1"]).get cameras ∧
      (ofNames ["cameras", "1", "~"]).set cameras (.nat 64) =
        .error (.missing (ofNames ["cameras", "1"]).pointer) ∧
      (ofNames ["cameras", "1"]).set cameras (.nat 64) =
        .error (.notAnObject (ofNames ["cameras"]).pointer) := by
  obtain ⟨-, outcome, -, effect⟩ := set_changes_only_itself cameras (.nat 64)
  obtain ⟨hsize, -, -⟩ := outcome ["cameras", "0"] "lut/size"
  obtain ⟨-, habsent, -⟩ := outcome ["cameras", "1"] "~"
  obtain ⟨-, -, harray⟩ := outcome ["cameras"] "1"
  obtain ⟨written, hw⟩ := hsize.mpr ⟨_, get_eq_ok.mpr rfl⟩
  obtain ⟨hself, hothers⟩ := effect _ _ hw
  refine ⟨written, hw, hself, hothers _ (by decide) (by decide), hothers _ (by decide) (by decide),
    habsent.mpr ⟨_, get_eq_error.mpr ⟨rfl, rfl⟩⟩, harray.mpr ⟨_, get_eq_ok.mpr rfl, ?_⟩⟩
  intro members h
  cases h

end Property
end EffectGraph
