import EffectGraph.Proofs.BindingOutcome
import Mathlib.Data.List.Induction

/-!
# `Proofs.InsertionOrder` — bound inputs remember which name came first and which expression came last

Nothing in the type of the bindings keeps a name from standing among them twice; what does is the way
in which they come about. Every insertion goes through the bindings up to its own name, exchanges the
expression there, and appends a binding only if it did not meet the name. After a history of
insertions the names therefore stand in the order of their first insertions, each once
(`names_ofInsertions`), and each is bound to the expression of its last one (`get?_ofInsertions`).
-/

namespace EffectGraph.BoundInputs

variable {history : List NamedExpression} {inserted other : NamedExpression}
  {entries : List NamedExpression} {name : String} {e : Expression}

/-! ## One insertion -/

/-- The pass that exchanges an expression finds what a look-up finds, and leaves what an insertion
    leaves. -/
theorem exchange_eq (name : String) (e : Expression) (entries : List NamedExpression) :
    exchange name e entries =
      ((entries.find? (·.name == name)).map (·.expression), put name e entries) := by
  induction entries with
  | nil => rfl
  | cons old rest ih =>
    rw [exchange, put]
    by_cases h : old.name = name
    · simp [h]
    · simp [h, ih]

theorem getThenInsert?_eq (inputs : BoundInputs) (name : String) (e : Expression) :
    inputs.getThenInsert? name e = (inputs.get? name, inputs.insert name e) := by
  rw [getThenInsert?, exchange_eq]
  rfl

/-- A binding of another name stays at its place, and no other binding of such a name appears. -/
theorem getElem?_put_of_ne (h : other.name ≠ name) (i : Nat) :
    (put name e entries)[i]? = some other ↔ entries[i]? = some other := by
  have hnew : (⟨name, e⟩ : NamedExpression) ≠ other := by
    rintro rfl
    exact h rfl
  induction entries generalizing i with
  | nil => cases i <;> simp [put, hnew]
  | cons old rest ih =>
    rw [put]
    by_cases ho : old.name = name
    · -- the binding that is replaced was not of the other name
      have hold : old ≠ other := by
        rintro rfl
        exact h ho
      rw [if_pos ho]
      cases i <;> simp [hnew, hold]
    · rw [if_neg ho]
      cases i with
      | zero => rfl
      | succ i => exact ih i

/-! ## Histories of insertions -/

/-- The bindings after insertions into none, one after another. -/
def ofInsertions (history : List NamedExpression) : BoundInputs :=
  history.foldl (fun inputs inserted => inputs.insert inserted.name inserted.expression) empty

theorem ofInsertions_concat (history : List NamedExpression) (inserted : NamedExpression) :
    ofInsertions (history ++ [inserted]) =
      (ofInsertions history).insert inserted.name inserted.expression := by
  rw [ofInsertions, List.foldl_append]
  rfl

/-- **The names stand in the order of their first insertions**, each once. -/
theorem names_ofInsertions (history : List NamedExpression) :
    (ofInsertions history).names = (history.map (·.name)).eraseDups := by
  rw [← foldl_pushNew_nil]
  induction history using List.reverseRecOn with
  | nil => rfl
  | append_singleton history inserted ih =>
    rw [ofInsertions_concat, names_insert, ih, List.map_append, List.foldl_append]
    rfl

/-- Whether the last insertion of the name in the history was one of the expression. -/
def LastInserted (history : List NamedExpression) (name : String) (e : Expression) : Prop :=
  ∃ before after, history = before ++ ⟨name, e⟩ :: after ∧ name ∉ after.map (·.name)

/-- One insertion more is the last one of its own name and makes no difference to another name. -/
theorem lastInserted_concat :
    LastInserted (history ++ [inserted]) name e ↔
      if inserted.name = name then inserted.expression = e else LastInserted history name e := by
  constructor
  · rintro ⟨before, after, hsplit, hlast⟩
    cases after using List.reverseRecOn with
    | nil =>
      obtain ⟨-, hinserted⟩ := List.append_inj' hsplit rfl
      obtain rfl : inserted = ⟨name, e⟩ := List.singleton_inj.mp hinserted
      rw [if_pos rfl]
    | append_singleton after last _ =>
      rw [← List.cons_append, ← List.append_assoc] at hsplit
      obtain ⟨rfl, hinserted⟩ := List.append_inj' hsplit rfl
      obtain rfl : inserted = last := List.singleton_inj.mp hinserted
      rw [List.map_append, List.mem_append, not_or] at hlast
      obtain ⟨hafter, hother⟩ := hlast
      have hne : inserted.name ≠ name := by simpa [eq_comm] using hother
      rw [if_neg hne]
      exact ⟨before, after, rfl, hafter⟩
  · split
    next hname =>
      rintro rfl
      refine ⟨history, [], ?_, by simp⟩
      rw [← hname]
    next hname =>
      rintro ⟨before, after, rfl, hlast⟩
      refine ⟨before, after ++ [inserted], by simp, ?_⟩
      simp [hlast, Ne.symm hname]

/-- **A name is bound to the expression of its last insertion.** -/
theorem get?_ofInsertions :
    (ofInsertions history).get? name = some e ↔ LastInserted history name e := by
  induction history using List.reverseRecOn with
  | nil => simp [ofInsertions, LastInserted, get?, empty]
  | append_singleton history inserted ih =>
    rw [ofInsertions_concat, get?_insert, lastInserted_concat]
    split
    next => rw [Option.some.injEq]
    next => exact ih

theorem get?_eq_none_iff {inputs : BoundInputs} : inputs.get? name = none ↔ name ∉ inputs.names := by
  rw [get?, Option.map_eq_none_iff, List.find?_eq_none, names, List.mem_map]
  simp

theorem size_eq_length_names (inputs : BoundInputs) : inputs.size = inputs.names.length := by
  rw [size, names, List.length_map]

/-- **Bound inputs are a map that keeps the order of insertion.** After any history of insertions into
    nothing:

* The bound names are the inserted ones, each once, in the order of their first insertions, and the
  size is their number.
* A name is bound to the expression of its last insertion, and to none if it was never inserted.
* One insertion more answers with the expression that its name was bound to, if it was bound. A binding
  of another name has the same place and the same expression before and after it. -/
theorem insertions_keep_order (history : List NamedExpression) :
    (ofInsertions history).names = (history.map (·.name)).eraseDups ∧
    (ofInsertions history).size = (history.map (·.name)).eraseDups.length ∧
    (∀ name e, (ofInsertions history).get? name = some e ↔
      ∃ before after, history = before ++ ⟨name, e⟩ :: after ∧ name ∉ after.map (·.name)) ∧
    (∀ name, (ofInsertions history).get? name = none ↔ name ∉ history.map (·.name)) ∧
    ∀ name e,
      (ofInsertions history).getThenInsert? name e =
        ((ofInsertions history).get? name, ofInsertions (history ++ [⟨name, e⟩])) ∧
      ∀ (i : Nat) (other : NamedExpression), other.name ≠ name →
        ((ofInsertions (history ++ [⟨name, e⟩])).entries[i]? = some other ↔
          (ofInsertions history).entries[i]? = some other) := by
  have hnames := names_ofInsertions history
  refine ⟨hnames, ?size, fun _ _ => get?_ofInsertions, ?unbound, ?next⟩
  case size => rw [size_eq_length_names, hnames]
  case unbound =>
    intro name
    rw [get?_eq_none_iff, hnames, List.mem_eraseDups]
  case next =>
    intro name e
    rw [ofInsertions_concat, getThenInsert?_eq]
    exact ⟨rfl, fun i other hother => getElem?_put_of_ne hother i⟩

/-- A direction that is bound after a count which is bound twice. -/
def recounted : List NamedExpression :=
  [⟨"Count", .parameter "few" .uint32⟩, ⟨"Up", .attr .position⟩,
    ⟨"Count", .parameter "many" .uint32⟩]

/-- The count keeps its place before the direction and is bound to what came last. The next insertion of
    the direction answers with its old expression and leaves the count where it is. -/
theorem recounted_keeps_order :
    (ofInsertions recounted).names = ["Count", "Up"] ∧ (ofInsertions recounted).size = 2 ∧
      (ofInsertions recounted).get? "Count" = some (.parameter "many" .uint32) ∧
      ((ofInsertions recounted).getThenInsert? "Up" (.constant (.float3 .unitY))).1 =
        some (.attr .position) ∧
      (ofInsertions (recounted ++ [⟨"Up", .constant (.float3 .unitY)⟩])).entries[0]? =
        some ⟨"Count", .parameter "many" .uint32⟩ := by
  obtain ⟨names, size, last, -, next⟩ := insertions_keep_order recounted
  obtain ⟨answer, others⟩ := next "Up" (.constant (.float3 .unitY))
  have hcount : (ofInsertions recounted).get? "Count" = some (.parameter "many" .uint32) :=
    (last _ _).mpr ⟨recounted.take 2, [], rfl, by decide⟩
  have hup : (ofInsertions recounted).get? "Up" = some (.attr .position) :=
    (last _ _).mpr ⟨recounted.take 1, recounted.drop 2, rfl, by decide⟩
  refine ⟨names.trans (by decide), size.trans (by decide), hcount, ?_, ?_⟩
  · rw [answer, hup]
  · exact (others 0 _ (by decide)).mpr rfl

end EffectGraph.BoundInputs
