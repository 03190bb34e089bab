import EffectGraph.Document.Uuid
import EffectGraph.Proofs.Outcome
import EffectGraph.Proofs.Tables
import EffectGraph.Proofs.Widening
import EffectGraph.Value

/-!
# `Proofs.Decoding` — what decoding makes of an encoded part

`Json.Gives outcome p a` says all about the outcome of a decoder on an encoded value: it succeeds
exactly when `p` holds, and then with `a`. Such facts are put together along the steps of a decoder
(`Gives.map`, `Gives.bind`), along the items of a list (`ReadsBack.list`) and along the members of a
record, some of which may have been left out (`Gives.member`). In the end a type is read back from
documents when its values with some property are (`Json.ReadsBack`); the property is that every
32-bit number is finite (`Value.readsBack`), and everything has it where there are no numbers.
-/

namespace EffectGraph

open Outcome

namespace Json

variable {α β : Type}

/-! ## Outcomes -/

/-- The outcome succeeds exactly under a condition, and then with the given value. -/
def Gives (outcome : Decoded α) (p : Prop) (a : α) : Prop :=
  ∀ b, outcome = .ok b ↔ p ∧ b = a

variable {outcome : Decoded α} {p q : Prop} {a : α} {b : β}

theorem gives_ok (a : α) : Gives (.ok a) True a := by
  intro b
  rw [Except.ok.injEq, true_and, eq_comm]

theorem gives_pure (a : α) : Gives (pure a) True a := gives_ok a

theorem Gives.eq_ok (h : Gives outcome p a) (hp : p) : outcome = .ok a := (h a).mpr ⟨hp, rfl⟩

theorem Gives.congr (h : Gives outcome p a) (hpq : p ↔ q) : Gives outcome q a := by
  intro b
  rw [← hpq]
  exact h b

theorem Gives.bind {next : α → Decoded β} (h : Gives outcome p a) (hnext : Gives (next a) q b) :
    Gives (outcome >>= next) (p ∧ q) b := by
  intro c
  rw [bind_eq_ok]
  constructor
  · rintro ⟨a', ha', hc⟩
    obtain ⟨hp, rfl⟩ := (h a').mp ha'
    obtain ⟨hq, rfl⟩ := (hnext c).mp hc
    exact ⟨⟨hp, hq⟩, rfl⟩
  · rintro ⟨⟨hp, hq⟩, rfl⟩
    exact ⟨a, (h a).mpr ⟨hp, rfl⟩, (hnext c).mpr ⟨hq, rfl⟩⟩

theorem Gives.bind_pure (h : Gives outcome p a) (f : α → β) :
    Gives (outcome >>= fun a => pure (f a)) p (f a) :=
  (h.bind (gives_pure (f a))).congr (and_true p).to_iff

theorem Gives.map (h : Gives outcome p a) (f : α → β) : Gives (f <$> outcome) p (f a) := by
  rw [map_eq_pure_bind]
  exact h.bind_pure f

/-- Decoding what was encoded succeeds exactly for the values with a property, and gives back the
    value. -/
def ReadsBack (encode : α → Json) (decode : Json → Decoded α) (p : α → Prop) : Prop :=
  ∀ a, Gives (decode (encode a)) (p a) a

/-! ## Single values -/

theorem gives_uint32 (n : UInt32) : Gives (nat n.toNat).toUInt32 True n := by
  have hlt : (n.toNat : Int) < UInt32.size := by exact_mod_cast n.toNat_lt
  rw [nat, toUInt32, if_pos ⟨Int.natCast_nonneg _, hlt⟩, Int.toNat_natCast, UInt32.ofNat_toNat]
  exact gives_ok n

/-- **A 32-bit number is read back with every bit of it** if it is finite, and else not at all. -/
theorem gives_single (x : Float32) : Gives (ofSingle x).toSingle (Single.isFinite x) x := by
  intro y
  unfold ofSingle
  by_cases h : Single.isFinite x
  · rw [if_pos h, toSingle, narrow_widen h, Except.ok.injEq, and_iff_right h, eq_comm]
  · rw [if_neg h]
    exact iff_of_false nofun fun hand => h hand.1

/-! ## Lists -/

/-- A list is read back when each of its items is. -/
theorem ReadsBack.list {encode : α → Json} {decode : Json → Decoded α} {p : α → Prop}
    (h : ReadsBack encode decode p) :
    ReadsBack (fun as => .array (as.map encode)) (toList decode) (fun as => ∀ a ∈ as, p a) := by
  intro as
  show Gives ((as.map encode).mapM decode) (∀ a ∈ as, p a) as
  induction as with
  | nil =>
    rw [List.map_nil, List.mapM_nil]
    exact (gives_pure []).congr (iff_of_true trivial (List.forall_mem_nil p))
  | cons a as ih =>
    rw [List.map_cons, List.mapM_cons]
    exact ((h a).bind (ih.bind_pure (List.cons a))).congr List.forall_mem_cons.symm

/-! ## Choices -/

theorem gives_name {variants : List (String × α)} {name : String}
    (h : variants.lookup name = some a) : Gives ((string name).toName variants) True a := by
  have hname : (string name).toName variants = pure a := by
    simp only [toName, toVariant, bind, Except.bind, h]
  rw [hname]
  exact gives_pure a

theorem toTagged_object {variants : List (String × (Json → Decoded α))} {name : String}
    {decode : Json → Decoded α} (h : variants.lookup name = some decode) (payload : Json) :
    (object [(name, payload)]).toTagged variants = decode payload := by
  simp only [toTagged, toVariant, bind, Except.bind, h]

/-! ## Records -/

/-- The names of the members that are written. -/
def memberNames : Json → List String
  | .object members => Table.names members
  | _ => []

theorem mem_names_member {name field : String} {leftOut : Bool} {value : Json} :
    field ∈ Table.names (member name leftOut value) ↔ field = name ∧ leftOut = false := by
  cases leftOut with
  | true => simp [member, Table.names]
  | false => simp [member, Table.names]

theorem gives_requireFields {name : String} {fields required : List String}
    {members : List (String × Json)} (h : ∀ field ∈ required, field ∈ Table.names members) :
    Gives ((object members).requireFields name fields required) True () := by
  have hnone : required.find? (fun field => !Table.has members field) = none := by
    rw [List.find?_eq_none]
    intro field hfield
    have hhas : Table.has members field = true := Table.has_iff_mem_names.mpr (h field hfield)
    rw [hhas]
    exact Bool.false_ne_true
  have hrequire : (object members).requireFields name fields required = pure () := by
    simp only [requireFields, toMembers, bind, Except.bind, hnone]
  rw [hrequire]
  exact gives_pure ()

section

variable {step : α → String → Json → Decoded α} {record next out : α} {name : String} {value : Json}
  {rest : List (String × Json)}

theorem Gives.toRecord {fields : List String} {members : List (String × Json)}
    (h : Gives (members.foldlM (fun record (name, value) => step record name value) record) p out) :
    Gives ((object members).toRecord name fields step record) p out := by
  unfold Json.toRecord
  refine ((gives_ok members).bind (h.bind ((gives_ok ()).bind (gives_pure out)))).congr ?_
  rw [and_true, and_true, true_and]

theorem gives_nil (step : α → String → Json → Decoded α) (record : α) :
    Gives (([] : List (String × Json)).foldlM (fun record (name, value) => step record name value)
      record) True record :=
  gives_pure record

/-- The step over a member that is always written. -/
theorem Gives.cons (h : Gives (step record name value) p next)
    (hrest : Gives (rest.foldlM (fun record (name, value) => step record name value) next) q out) :
    Gives (((name, value) :: rest).foldlM (fun record (name, value) => step record name value) record)
      (p ∧ q) out := by
  rw [List.foldlM_cons]
  exact h.bind hrest

/-- The step over a member that may be left out: when it is, the record has to hold its value
    already. -/
theorem Gives.member {leftOut : Bool} (h : Gives (step record name value) p next)
    (hleft : leftOut = true → p ∧ next = record) :
    Gives ((member name leftOut value).foldlM (fun record (name, value) => step record name value)
      record) p next := by
  cases leftOut with
  | true =>
    obtain ⟨hp, rfl⟩ := hleft rfl
    exact (gives_nil step next).congr (iff_of_true trivial hp)
  | false => exact (h.cons (gives_nil step next)).congr (and_true p).to_iff

theorem Gives.append {members : List (String × Json)}
    (h : Gives (members.foldlM (fun record (name, value) => step record name value) record) p next)
    (hrest : Gives (rest.foldlM (fun record (name, value) => step record name value) next) q out) :
    Gives ((members ++ rest).foldlM (fun record (name, value) => step record name value) record)
      (p ∧ q) out := by
  rw [List.foldlM_append]
  exact h.bind hrest

end

end Json

/-! ## Identifiers -/

namespace Uuid

theorem digit?_digitChar (d : Fin 16) : digit? (digitChar d) = some d := by
  revert d
  decide

theorem ofDigits?_digits (id : Uuid) : ofDigits? (id.digits.map digitChar) = some id := by
  obtain ⟨digits, hlength⟩ := id
  have hdigits : (digits.map digitChar).mapM digit? = some digits := by
    clear hlength
    induction digits with
    | nil => rfl
    | cons d rest ih => simp [digit?_digitChar, ih]
  simp [ofDigits?, hdigits, hlength]

/-- Taking the hyphens out again. -/
theorem ungroup?_grouped {a b c d last : List Char} (ha : a.length = 8) (hb : b.length = 4)
    (hc : c.length = 4) (hd : d.length = 4) :
    ungroup? (a ++ '-' :: b ++ '-' :: c ++ '-' :: d ++ '-' :: last) =
      some (a ++ b ++ c ++ d ++ last) := by
  simp [ungroup?, List.drop_append, List.drop_eq_nil_of_le, ha, hb, hc, hd]

/-- Five groups in a row are the list that they were taken from. -/
theorem groups_append (cs : List Char) :
    cs.take 8 ++ (cs.drop 8).take 4 ++ (cs.drop 12).take 4 ++ (cs.drop 16).take 4 ++ cs.drop 20 =
      cs := by
  have hsplit : ∀ n, (cs.drop n).take 4 ++ cs.drop (n + 4) = cs.drop n := by
    intro n
    rw [← List.drop_drop]
    exact List.take_append_drop 4 (cs.drop n)
  simp only [List.append_assoc]
  rw [hsplit 16, hsplit 12, hsplit 8, List.take_append_drop]

theorem ofText?_text (id : Uuid) : ofText? id.text = some id := by
  have hlength : (id.digits.map digitChar).length = 32 := by rw [List.length_map, id.length_digits]
  have hdigits : ofDigits? (id.digits.map digitChar) = some id := ofDigits?_digits id
  unfold text
  generalize id.digits.map digitChar = cs at hlength hdigits
  have hungroup : ungroup? (cs.take 8 ++ '-' :: (cs.drop 8).take 4 ++ '-' :: (cs.drop 12).take 4 ++
      '-' :: (cs.drop 16).take 4 ++ '-' :: cs.drop 20) = some cs := by
    rw [ungroup?_grouped (by simp [hlength]) (by simp [hlength]) (by simp [hlength])
      (by simp [hlength]), groups_append]
  have htext : (cs.take 8 ++ '-' :: (cs.drop 8).take 4 ++ '-' :: (cs.drop 12).take 4 ++
      '-' :: (cs.drop 16).take 4 ++ '-' :: cs.drop 20).length = 36 := by
    simp [hlength]
  simp only [ofText?, String.toList_ofList, htext, hungroup]
  exact hdigits

/-- An identifier is read back, whatever it is. -/
theorem gives (id : Uuid) : Json.Gives (ofJson id.toJson) True id := by
  rw [toJson, ofJson, ofText?_text]
  exact Json.gives_ok id

end Uuid

/-! ## Values -/

/-- Whether every component of a vector is finite. -/
def Vec3.Finite (v : Vec3) : Prop :=
  Single.isFinite v.x ∧ Single.isFinite v.y ∧ Single.isFinite v.z

/-- Whether every 32-bit number of a value is finite. -/
def Value.Finite : Value → Prop
  | .uint _ => True
  | .float x => Single.isFinite x
  | .float3 v => v.Finite

theorem Vec3.readsBack : Json.ReadsBack toJson ofJson Finite := by
  rintro ⟨x, y, z⟩
  exact (Json.gives_single x).bind ((Json.gives_single y).bind ((Json.gives_single z).bind_pure
    (Vec3.mk x y)))

/-- **A value is read back exactly when it is finite.** -/
theorem Value.readsBack : Json.ReadsBack toJson ofJson Finite := by
  intro v
  cases v with
  | uint n =>
    rw [toJson, ofJson, Json.toTagged_object rfl]
    exact (Json.gives_uint32 n).map Value.uint
  | float x =>
    rw [toJson, ofJson, Json.toTagged_object rfl]
    exact (Json.gives_single x).map Value.float
  | float3 v =>
    rw [toJson, ofJson, Json.toTagged_object rfl]
    exact (Vec3.readsBack v).map Value.float3

end EffectGraph
