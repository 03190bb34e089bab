import EffectGraph.Proofs.ContextDocument
import Mathlib.Data.List.Induction

/-!
# `Proofs.Reloading` — which loaded contexts can be saved and loaded again

A document may hold any number where a 32-bit number is read, and a number that is out of range is
read as an infinite one. That is written as `null`, which is no number. So whether a loaded context
comes back from its own document form shows in the document that it was loaded from: exactly when
every number in the slot values there is in range (`Context.reloads_iff_inRange`).

A decoder is followed back to the numbers that it read (`Json.Governs`): through choices, through
lists and through records, where the last member of a name is the one that counts
(`Json.foldlM_field`).
-/

namespace EffectGraph

open Outcome
open BinaryFormat (single double)

/-! ## Numbers in range -/

/-- The middle between the greatest finite 32-bit magnitude, `(2 ^ 24 - 1) * 2 ^ 104`, and `2 ^ 128`. -/
def singleLimit : Nat := (2 ^ 25 - 1) * 2 ^ 103

/-- Whether the nearest 32-bit number is finite: the magnitude is below the limit. -/
def JsonNumber.InRange : JsonNumber → Prop
  | .integer n => n.natAbs < singleLimit
  | .real x => double.units (Double.code x) < singleLimit * 2 ^ double.unitExponent

instance : DecidablePred JsonNumber.InRange
  | .integer _ => inferInstanceAs (Decidable (_ < _))
  | .real _ => inferInstanceAs (Decidable (_ < _))

namespace Json

mutual

/-- The numbers within a value. -/
def numbers : Json → List JsonNumber
  | .null => []
  | .bool _ => []
  | .number n => [n]
  | .string _ => []
  | .array items => numbersOfItems items
  | .object members => numbersOfMembers members

/-- The numbers within the items of an array. -/
def numbersOfItems : List Json → List JsonNumber
  | [] => []
  | item :: rest => numbers item ++ numbersOfItems rest

/-- The numbers within the members of an object. -/
def numbersOfMembers : List (String × Json) → List JsonNumber
  | [] => []
  | (_, value) :: rest => numbers value ++ numbersOfMembers rest

end

/-- The items of an array. -/
def items : Json → List Json
  | .array items => items
  | _ => []

/-- The value that a record takes for a field: the last member of that name. An array gives the
    values in the order of the fields. -/
def field? (fields : List String) (field : String) : Json → Option Json
  | .object members => List.lookup field members.reverse
  | .array items => List.lookup field (fields.zip items).reverse
  | _ => none

/-! ## Decoders and the numbers that they read -/

variable {α β : Type}

/-- A decoder gives a value with the property exactly when certain numbers of what it reads are in
    range. -/
def Governs (numbers : Json → List JsonNumber) (decode : Json → Decoded α) (p : α → Prop) : Prop :=
  ∀ json a, decode json = .ok a → (p a ↔ ∀ n ∈ numbers json, n.InRange)

theorem overflow_eq : single.overflow = singleLimit * 2 ^ single.unitExponent := by
  have hexponent : 2 ^ single.exponentBits - 4 = 103 + single.unitExponent := by decide
  have hsteps : 2 ^ (single.fractionBits + 2) - 1 = 2 ^ 25 - 1 := rfl
  rw [BinaryFormat.overflow, singleLimit, hexponent, hsteps, Nat.pow_add, Nat.mul_assoc]

theorem overflow_mul_unitRatio :
    single.overflow * unitRatio = singleLimit * 2 ^ double.unitExponent := by
  have hexponent : single.unitExponent + (double.unitExponent - single.unitExponent) =
      double.unitExponent := by decide
  rw [overflow_eq, unitRatio_eq, Nat.mul_assoc, ← Nat.pow_add, hexponent]

theorem governs_single : Governs numbers toSingle (fun x => Single.isFinite x) := by
  intro json x h
  cases json with
  | number n =>
    rw [numbers, List.forall_mem_singleton]
    cases n with
    | integer n =>
      obtain rfl : Single.ofInt n = x := Except.ok.inj h
      show Single.isFinite (Single.ofInt n) ↔ n.natAbs < singleLimit
      rw [Single.isFinite_ofInt, overflow_eq]
      exact Nat.mul_lt_mul_right (Nat.two_pow_pos _)
    | real y =>
      obtain rfl : narrow y = x := Except.ok.inj h
      show Single.isFinite (narrow y) ↔ double.units (Double.code y) < _
      rw [isFinite_narrow, overflow_mul_unitRatio]
  | _ => cases h

theorem governs_uint32 : Governs numbers toUInt32 (fun _ => True) := by
  intro json x h
  cases json with
  | number n =>
    rw [numbers, List.forall_mem_singleton, true_iff]
    cases n with
    | integer n =>
      rw [toUInt32] at h
      by_cases hn : 0 ≤ n ∧ n < UInt32.size
      · show n.natAbs < singleLimit
        have hsize : (UInt32.size : Int) = 2 ^ 32 := rfl
        have hlt : n.natAbs < 2 ^ 32 := by omega
        exact Nat.lt_trans hlt (by decide)
      · rw [if_neg hn] at h
        cases h
    | real y => cases h
  | _ => cases h

variable {numbersOf : Json → List JsonNumber} {decode : Json → Decoded α} {p : α → Prop}

theorem Governs.map (h : Governs numbersOf decode p) {f : α → β} {q : β → Prop}
    (hpq : ∀ a, q (f a) ↔ p a) : Governs numbersOf (fun json => f <$> decode json) q := by
  intro json b hb
  obtain ⟨a, ha, rfl⟩ := map_eq_ok.mp hb
  rw [hpq]
  exact h json a ha

theorem eq_object_of_toVariant {json payload : Json} {name : String}
    (h : json.toVariant = .ok (name, some payload)) : json = .object [(name, payload)] := by
  unfold toVariant at h
  split at h
  -- an object of one member is the only form that has a payload
  all_goals cases h
  rfl

theorem toTagged_eq_ok {variants : List (String × (Json → Decoded α))} {json : Json} {a : α}
    (h : json.toTagged variants = .ok a) :
    ∃ name payload decode, json = .object [(name, payload)] ∧ (name, decode) ∈ variants ∧
      decode payload = .ok a := by
  obtain ⟨⟨name, payload?⟩, hvariant, hread⟩ := bind_eq_ok.mp h
  dsimp only at hread
  cases hdecode : variants.lookup name with
  | none =>
    rw [hdecode] at hread
    cases hread
  | some decode =>
    rw [hdecode] at hread
    cases payload? with
    | none => cases hread
    | some payload =>
      obtain ⟨front, rest, hsplit, -⟩ := List.lookup_eq_some_iff.mp hdecode
      have hmem : (name, decode) ∈ variants := by
        rw [hsplit]
        exact List.mem_append_right front List.mem_cons_self
      exact ⟨name, payload, decode, eq_object_of_toVariant hvariant, hmem, hread⟩

/-- The numbers of a tagged choice are those of the value that goes with its name. -/
theorem governs_tagged {variants : List (String × (Json → Decoded α))}
    (h : ∀ variant ∈ variants, Governs numbers variant.2 p) :
    Governs numbers (toTagged variants) p := by
  intro json a ha
  obtain ⟨name, payload, decode, rfl, hmem, hread⟩ := toTagged_eq_ok ha
  rw [numbers, numbersOfMembers, numbersOfMembers, List.append_nil]
  exact h (name, decode) hmem payload a hread

theorem Governs.list (h : Governs numbersOf decode p) :
    Governs (fun json => json.items.flatMap numbersOf) (toList decode)
      (fun as => ∀ a ∈ as, p a) := by
  intro json as has
  cases json with
  | array items =>
    show (∀ a ∈ as, p a) ↔ ∀ n ∈ items.flatMap numbersOf, n.InRange
    replace has : items.mapM decode = .ok as := has
    induction items generalizing as with
    | nil =>
      obtain rfl : [] = as := pure_eq_ok.mp has
      exact iff_of_true nofun nofun
    | cons item items ih =>
      rw [List.mapM_cons] at has
      obtain ⟨a, ha, has⟩ := bind_eq_ok.mp has
      obtain ⟨rest, hrest, hcons⟩ := bind_eq_ok.mp has
      obtain rfl : a :: rest = as := pure_eq_ok.mp hcons
      rw [List.flatMap_cons, List.forall_mem_append, List.forall_mem_cons]
      exact and_congr (h item a ha) (ih rest hrest)
  | _ => cases has

/-! ## Records and the members that they read -/

/-- A step over a member of the given name reads one field of a record, and a step over any other
    member leaves that field alone. -/
structure ReadsField (step : α → String → Json → Decoded α) (field : String)
    (decode : Json → Decoded β) (get : α → β) : Prop where
  own : ∀ record value after, step record field value = .ok after → decode value = .ok (get after)
  other : ∀ record name value after, name ≠ field → step record name value = .ok after →
    get after = get record

variable {step : α → String → Json → Decoded α} {field : String} {get : α → β}
  {initial record : α} {decode : Json → Decoded β}

/-- What was read is the field that it was put into. -/
theorem eq_ok_of_bind_pure {outcome : Decoded β} {put : β → α}
    (h : (outcome >>= fun read => pure (put read)) = .ok record) (hget : ∀ b, get (put b) = b) :
    outcome = .ok (get record) := by
  obtain ⟨read, hread, hput⟩ := bind_eq_ok.mp h
  obtain rfl : put read = record := pure_eq_ok.mp hput
  rw [hget]
  exact hread

/-- **The last member of a name decides its field.** -/
theorem ReadsField.foldlM (hreads : ReadsField step field decode get)
    {members : List (String × Json)}
    (h : members.foldlM (fun record (name, value) => step record name value) initial = .ok record) :
    match List.lookup field members.reverse with
    | none => get record = get initial
    | some value => decode value = .ok (get record) := by
  -- from the back, since the last member is the one that counts
  induction members using List.reverseRecOn generalizing record with
  | nil =>
    obtain rfl := pure_eq_ok.mp h
    rfl
  | append_singleton front last ih =>
    obtain ⟨name, value⟩ := last
    rw [List.foldlM_append] at h
    obtain ⟨before, hbefore, hlast⟩ := bind_eq_ok.mp h
    obtain ⟨after, hstep, hafter⟩ := bind_eq_ok.mp hlast
    obtain rfl := pure_eq_ok.mp hafter
    rw [List.reverse_append, List.reverse_singleton, List.singleton_append, List.lookup_cons]
    by_cases hname : field = name
    · subst hname
      rw [beq_self_eq_true]
      exact hreads.own before value after hstep
    · rw [beq_eq_false_iff_ne.mpr hname, hreads.other before name value after (Ne.symm hname) hstep]
      exact ih hbefore

theorem field?_eq_lookup {name : String} {fields : List String} {json : Json} {members : Table Json}
    (h : json.toMembers name fields = .ok members) :
    json.field? fields field = List.lookup field members.reverse := by
  cases json with
  | object own =>
    obtain rfl : own = members := Except.ok.inj h
    rfl
  | array items =>
    obtain rfl : fields.zip items = members := Except.ok.inj h
    rfl
  | _ => cases h

/-- The numbers of a field of a record are those of the member that decides it. -/
theorem Governs.toRecord {name : String} {fields : List String} {p : β → Prop}
    (h : Governs numbersOf decode p) (hreads : ReadsField step field decode get)
    (hinitial : p (get initial)) :
    Governs (fun json => (json.field? fields field).toList.flatMap numbersOf)
      (toRecord name fields step initial) (fun record => p (get record)) := by
  intro json record hrecord
  obtain ⟨members, hmembers, hrecord⟩ := bind_eq_ok.mp hrecord
  obtain ⟨read, hfold, hrecord⟩ := bind_eq_ok.mp hrecord
  obtain ⟨-, -, hrecord⟩ := bind_eq_ok.mp hrecord
  obtain rfl := pure_eq_ok.mp hrecord
  have hlast := hreads.foldlM hfold
  dsimp only
  rw [field?_eq_lookup hmembers]
  cases hvalue : List.lookup field members.reverse with
  | none =>
    rw [hvalue] at hlast
    rw [hlast]
    exact iff_of_true hinitial nofun
  | some value =>
    rw [hvalue] at hlast
    rw [Option.toList_some, List.flatMap_singleton]
    exact h value (get read) hlast

theorem Governs.requireFields {name : String} {fields required : List String}
    {read : Json → Decoded α} (h : Governs numbersOf read p) :
    Governs numbersOf (fun json => do
      let record ← read json
      json.requireFields name fields required
      return record) p := by
  intro json record hrecord
  obtain ⟨record, hread, hrecord⟩ := bind_eq_ok.mp hrecord
  obtain ⟨-, -, hrecord⟩ := bind_eq_ok.mp hrecord
  obtain rfl := pure_eq_ok.mp hrecord
  exact h json record hread

end Json

open Json

/-! ## Values and what slots bind to -/

theorem Vec3.governs : Governs numbers ofJson Finite := by
  intro json v h
  unfold ofJson at h
  split at h
  next x y z rest =>
    obtain ⟨x', hx, h⟩ := bind_eq_ok.mp h
    obtain ⟨y', hy, h⟩ := bind_eq_ok.mp h
    obtain ⟨z', hz, h⟩ := bind_eq_ok.mp h
    cases rest with
    | nil =>
      obtain rfl : Vec3.mk x' y' z' = v := pure_eq_ok.mp h
      simp only [numbers, numbersOfItems, List.append_nil, List.forall_mem_append]
      rw [← governs_single x x' hx, ← governs_single y y' hy, ← governs_single z z' hz]
      rfl
    | cons _ _ => cases h
  next =>
    -- an array of fewer items fails also when all of them are numbers
    obtain ⟨_, -, h⟩ := bind_eq_ok.mp h
    cases h
  next => cases h

theorem Value.governs : Governs numbers ofJson Finite := by
  refine governs_tagged ?_
  intro variant hmem
  simp only [List.mem_cons, List.not_mem_nil, or_false] at hmem
  rcases hmem with rfl | rfl | rfl
  · exact governs_uint32.map fun _ => Iff.rfl
  · exact governs_single.map fun _ => Iff.rfl
  · exact Vec3.governs.map fun _ => Iff.rfl

theorem SlotValue.governs : Governs numbers ofJson Finite := by
  refine governs_tagged ?_
  intro variant hmem
  simp only [List.mem_cons, List.not_mem_nil, or_false] at hmem
  rcases hmem with rfl | rfl
  · exact Value.governs.map fun _ => Iff.rfl
  · have htext : Governs numbers toText (fun _ => True) := by
      intro json s h
      cases json with
      | string _ => exact iff_of_true trivial nofun
      | _ => cases h
    exact htext.map fun _ => Iff.rfl

/-! ## Authored contexts -/

namespace Slot

/-- The numbers in the value of a slot of a document. -/
def numbersIn (json : Json) : List JsonNumber :=
  (json.field? fields "value").toList.flatMap numbers

theorem reads_value : ReadsField readMember "value" SlotValue.ofJson value where
  own slot value after h := eq_ok_of_bind_pure h fun _ => rfl
  other slot name value after hname h := by
    unfold readMember at h
    split at h
    all_goals simp only [bind_eq_ok, pure_eq_ok] at h
    all_goals grind

theorem governs : Governs numbersIn ofJson Finite :=
  Governs.requireFields (SlotValue.governs.toRecord reads_value trivial)

end Slot

namespace Node

/-- The numbers in the slot values of a node of a document. -/
def numbersIn (json : Json) : List JsonNumber :=
  (json.field? fields "inputs").toList.flatMap fun slots => slots.items.flatMap Slot.numbersIn

theorem reads_slots : ReadsField readMember "inputs" (toList Slot.ofJson) slots where
  own node value after h := eq_ok_of_bind_pure h fun _ => rfl
  other node name value after hname h := by
    unfold readMember at h
    split at h
    all_goals simp only [bind_eq_ok, pure_eq_ok] at h
    all_goals grind

theorem governs : Governs numbersIn ofJson Finite :=
  Governs.requireFields (Slot.governs.list.toRecord reads_slots nofun)

end Node

namespace Context

/-- The numbers in the slot values of a context of a document. -/
def numbersIn (json : Json) : List JsonNumber :=
  (json.field? fields "blocks").toList.flatMap fun nodes => nodes.items.flatMap Node.numbersIn

theorem reads_nodes : ReadsField readMember "blocks" (toList Node.ofJson) nodes where
  own context value after h := eq_ok_of_bind_pure h fun _ => rfl
  other context name value after hname h := by
    unfold readMember at h
    split at h
    all_goals simp only [bind_eq_ok, pure_eq_ok] at h
    all_goals grind

theorem governs : Governs numbersIn ofJson Finite :=
  Governs.requireFields (Node.governs.list.toRecord reads_nodes nofun)

/-- **A loaded context comes back from its own document form** exactly when every number in the slot
    values of the document that it was loaded from is in range, and then as it was. -/
theorem reloads_iff_inRange {json : Json} {context : Context} (h : ofJson json = .ok context)
    (again : Context) :
    ofJson context.toJson = .ok again ↔ (∀ n ∈ numbersIn json, n.InRange) ∧ again = context := by
  rw [← governs json context h]
  exact readsBack context again

/-- A document with one slot, which binds a radius to a number. -/
def radiusDocument (radius : JsonNumber) : Json :=
  .object [
    ("blocks", .array [.object [("block", .string "position_sequential"),
      ("inputs", .array [.object [("name", .string "Radius"),
        ("value", .object [("value", .object [("float", .number radius)])])]])]]),
    ("context", .string "ring"),
    ("context_type", .object [("init", .null)])]

/-- The context with one slot, which binds a radius to a number. -/
def ofRadius (radius : Float32) : Context :=
  new "ring" .init [.new "position_sequential" .null [.ofValue "Radius" (.float radius)]]

/-- A radius of two comes back, also from a document that gives it without a fraction. -/
theorem radius_two_reloads :
    ofJson (radiusDocument (.integer 2)) = .ok (ofRadius (Single.ofInt 2)) ∧
      ofJson (ofRadius (Single.ofInt 2)).toJson = .ok (ofRadius (Single.ofInt 2)) := by
  have hload : ofJson (radiusDocument (.integer 2)) = .ok (ofRadius (Single.ofInt 2)) := rfl
  have hrange : ∀ n ∈ numbersIn (radiusDocument (.integer 2)), n.InRange := by decide
  exact ⟨hload, (reloads_iff_inRange hload _).mpr ⟨hrange, rfl⟩⟩

/-- The 64-bit number `1e300`. -/
def huge : Float := Double.ofCode false (double.nearest (10 ^ 300 * 2 ^ double.unitExponent) 1)

/-- A radius of `1e300` is accepted, and what is written of the context cannot be read. -/
theorem radius_huge_not_reloaded :
    ofJson (radiusDocument (.real huge)) = .ok (ofRadius (narrow huge)) ∧
      ∀ again, ofJson (ofRadius (narrow huge)).toJson ≠ .ok again := by
  refine ⟨rfl, ?_⟩
  intro again h
  have hfinite : (ofRadius (narrow huge)).Finite := ((readsBack _ again).mp h).1
  have hradius : Single.isFinite (narrow huge) :=
    hfinite _ List.mem_cons_self _ List.mem_cons_self
  rw [isFinite_narrow, huge, Double.code_ofCode (BinaryFormat.nearest_le_infinity _ _ _)] at hradius
  revert hradius
  decide +kernel

end Context
end EffectGraph
