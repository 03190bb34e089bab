import EffectGraph.Document.Part
import EffectGraph.Proofs.Outcome

/-!
# `Proofs.Identifiers` — missing identifiers are completed, and nothing else is touched

The identifiers of a context stand in one order: its own, then of each node its own and those of its slots.
Completion goes along that order and puts the next identifier of its supply in the place of each nil one
(`Fills`). Apart from the identifiers, everything stays as it is, which is said by taking all of them away
before and after (`Context.withoutIds`).

Slots, nodes and contexts are completed in the same manner, each as a part of the next. What is to be shown
of each is `Completes`; it passes from parts to lists of them (`Completes.list`), and that is where the count
of drawn identifiers is handed on.
-/

namespace EffectGraph

open Outcome

/-! ## Filling a list -/

/-- The second list is the first one with identifiers of a supply in place of the nil ones: the first of
    them has the number `drawn` in the supply, and each has the one after the nil identifier before it. -/
def Fills (supply : Nat → Uuid) (drawn : Nat) (ids filled : List Uuid) : Prop :=
  ∀ k : Nat, filled[k]? = ids[k]?.map fun id =>
    if id.isNil then supply (drawn + (ids.take k).countP (·.isNil)) else id

namespace Fills

variable {supply : Nat → Uuid} {drawn : Nat} {ids filled more moreFilled : List Uuid}

theorem nil (supply : Nat → Uuid) (drawn : Nat) : Fills supply drawn [] [] := by
  intro k
  rfl

theorem singleton (supply : Nat → Uuid) (drawn : Nat) (id : Uuid) :
    Fills supply drawn [id] [if id.isNil then supply drawn else id] := by
  intro k
  cases k with
  | zero => rfl
  | succ k => rfl

theorem length_eq (h : Fills supply drawn ids filled) : filled.length = ids.length := by
  have hends : ∀ k : Nat, filled.length ≤ k ↔ ids.length ≤ k := by
    intro k
    rw [← List.getElem?_eq_none_iff, ← List.getElem?_eq_none_iff, h k, Option.map_eq_none_iff]
  have hle := (hends ids.length).mpr (Nat.le_refl _)
  have hge := (hends filled.length).mp (Nat.le_refl _)
  omega

/-- **Lists are filled one after the other**, the second from where the first has come to. -/
theorem append (h : Fills supply drawn ids filled)
    (hm : Fills supply (drawn + ids.countP (·.isNil)) more moreFilled) :
    Fills supply drawn (ids ++ more) (filled ++ moreFilled) := by
  have hlength : filled.length = ids.length := h.length_eq
  intro k
  by_cases hk : k < ids.length
  · rw [List.getElem?_append_left (by omega), List.getElem?_append_left hk, h k,
      List.take_append_of_le_length (Nat.le_of_lt hk)]
  · -- all of the first list has been filled before
    have hle : ids.length ≤ k := Nat.le_of_not_lt hk
    rw [List.getElem?_append_right (by omega), List.getElem?_append_right hle, hlength, hm,
      List.take_append, List.take_of_length_le hle, List.countP_append, Nat.add_assoc]

/-- No identifier is nil afterwards, if the supply has none that is. -/
theorem isNil_eq_false (hs : ∀ n, (supply n).isNil = false) (h : Fills supply drawn ids filled) :
    ∀ id ∈ filled, id.isNil = false := by
  intro id hid
  obtain ⟨k, hk⟩ := List.mem_iff_getElem?.mp hid
  rw [h k, Option.map_eq_some_iff] at hk
  obtain ⟨old, -, rfl⟩ := hk
  cases hold : old.isNil with
  | true => simp [hs]
  | false => simp [hold]

end Fills

/-! ## Completing parts -/

/-- An action completes the identifiers of a part: it fills them and draws one for each nil one, it leaves
    everything else alone, and it does nothing to a part in which there is no nil one. -/
structure Completes {α : Type} (supply : Nat → Uuid) (ids : α → List Uuid) (withoutIds : α → α)
    (action : α → StateM Nat α) : Prop where
  fills : ∀ a drawn, Fills supply drawn (ids a) (ids (action a drawn).1)
  drawn_eq : ∀ a drawn, (action a drawn).2 = drawn + (ids a).countP (·.isNil)
  withoutIds_eq : ∀ a drawn, withoutIds (action a drawn).1 = withoutIds a
  idle : ∀ a drawn, (∀ id ∈ ids a, id.isNil = false) → action a drawn = (a, drawn)

/-- What is drawn for one identifier. -/
theorem Context.draw_apply (supply : Nat → Uuid) (id : Uuid) (drawn : Nat) :
    draw supply id drawn = (if id.isNil then supply drawn else id, drawn + [id].countP (·.isNil)) := by
  unfold draw
  cases h : id.isNil with
  | true =>
    simp only [List.countP_singleton, h, if_true]
    rfl
  | false =>
    simp only [List.countP_singleton, h, Bool.false_eq_true, if_false]
    rfl

/-- Nothing is drawn for an identifier that is there. -/
theorem Context.draw_of_isNil_eq_false {supply : Nat → Uuid} {id : Uuid} (h : id.isNil = false)
    (drawn : Nat) : draw supply id drawn = (id, drawn) := by
  rw [draw_apply]
  simp [h]

namespace Completes

variable {α β : Type} {supply : Nat → Uuid} {ids : α → List Uuid} {withoutIds : α → α}
  {action : α → StateM Nat α}

theorem mapM_cons_apply (a : α) (as : List α) (drawn : Nat) :
    (a :: as).mapM action drawn =
      ((action a drawn).1 :: (as.mapM action (action a drawn).2).1,
        (as.mapM action (action a drawn).2).2) := by
  rw [List.mapM_cons]
  rfl

/-- **What completes parts completes a list of them**, one part from where the part before has come to. -/
theorem list (h : Completes supply ids withoutIds action) :
    Completes supply (List.flatMap ids) (List.map withoutIds) (List.mapM action) where
  fills as drawn := by
    induction as generalizing drawn with
    | nil => exact Fills.nil supply drawn
    | cons a as ih =>
      rw [mapM_cons_apply, List.flatMap_cons, List.flatMap_cons]
      apply (h.fills a drawn).append
      rw [← h.drawn_eq a drawn]
      exact ih _
  drawn_eq as drawn := by
    induction as generalizing drawn with
    | nil => rfl
    | cons a as ih =>
      rw [mapM_cons_apply, List.flatMap_cons, List.countP_append, ← Nat.add_assoc, ← h.drawn_eq a drawn]
      exact ih _
  withoutIds_eq as drawn := by
    induction as generalizing drawn with
    | nil => rfl
    | cons a as ih => rw [mapM_cons_apply, List.map_cons, List.map_cons, h.withoutIds_eq, ih]
  idle as drawn hids := by
    induction as with
    | nil => rfl
    | cons a as ih =>
      rw [List.flatMap_cons, List.forall_mem_append] at hids
      rw [mapM_cons_apply, h.idle a drawn hids.1, ih hids.2]

/-- The action on a whole: it draws for the identifier of its own and then completes the parts. -/
def onWhole (supply : Nat → Uuid) (action : α → StateM Nat α) (own : β → Uuid) (parts : β → List α)
    (rebuild : β → Uuid → List α → β) (whole : β) : StateM Nat β := do
  let id ← Context.draw supply (own whole)
  let completed ← (parts whole).mapM action
  return rebuild whole id completed

/-- **What completes parts completes a whole** that has an identifier of its own and a list of such parts,
    as long as putting in an identifier and parts does that and nothing else. -/
theorem whole (h : Completes supply ids withoutIds action) (own : β → Uuid) (parts : β → List α)
    (rebuild : β → Uuid → List α → β)
    (hown : ∀ b id as, own (rebuild b id as) = id) (hparts : ∀ b id as, parts (rebuild b id as) = as)
    (hself : ∀ b, rebuild b (own b) (parts b) = b)
    (hagain : ∀ b id as id' as', rebuild (rebuild b id as) id' as' = rebuild b id' as') :
    Completes supply (fun b => own b :: (parts b).flatMap ids)
      (fun b => rebuild b .nil ((parts b).map withoutIds)) (onWhole supply action own parts rebuild) := by
  have hrun : ∀ b drawn, onWhole supply action own parts rebuild b drawn =
      (rebuild b (Context.draw supply (own b) drawn).1
        ((parts b).mapM action (Context.draw supply (own b) drawn).2).1,
        ((parts b).mapM action (Context.draw supply (own b) drawn).2).2) := fun _ _ => rfl
  constructor
  case fills =>
    intro b drawn
    rw [hrun, Context.draw_apply]
    show Fills supply drawn ([own b] ++ _) (own (rebuild b _ _) :: (parts (rebuild b _ _)).flatMap ids)
    rw [hown, hparts]
    exact (Fills.singleton supply drawn (own b)).append (h.list.fills (parts b) _)
  case drawn_eq =>
    intro b drawn
    rw [hrun, Context.draw_apply]
    show _ = drawn + ([own b] ++ (parts b).flatMap ids).countP (·.isNil)
    rw [List.countP_append, ← Nat.add_assoc]
    exact h.list.drawn_eq (parts b) _
  case withoutIds_eq =>
    intro b drawn
    rw [hrun]
    show rebuild (rebuild b _ _) .nil ((parts (rebuild b _ _)).map withoutIds) = _
    rw [hparts, hagain, h.list.withoutIds_eq (parts b)]
  case idle =>
    intro b drawn hids
    obtain ⟨hid, hids⟩ := List.forall_mem_cons.mp hids
    rw [hrun, Context.draw_of_isNil_eq_false hid, h.list.idle (parts b) drawn hids, hself]

end Completes

/-! ## Slots, nodes and contexts -/

variable {supply : Nat → Uuid}

/-- The slot without its identifier. -/
def Slot.withoutIds (slot : Slot) : Slot := { slot with id := .nil }

/-- The slot with its identifier drawn if it is missing. -/
def Slot.complete (draw : Uuid → StateM Nat Uuid) (slot : Slot) : StateM Nat Slot := do
  return { slot with id := ← draw slot.id }

theorem Slot.completes (supply : Nat → Uuid) :
    Completes supply (fun slot => [slot.id]) withoutIds (complete (Context.draw supply)) := by
  have hrun : ∀ slot drawn, complete (Context.draw supply) slot drawn =
      ({ slot with id := (Context.draw supply slot.id drawn).1 },
        (Context.draw supply slot.id drawn).2) := fun _ _ => rfl
  constructor
  case fills =>
    intro slot drawn
    rw [hrun, Context.draw_apply]
    exact Fills.singleton supply drawn slot.id
  case drawn_eq =>
    intro slot drawn
    rw [hrun, Context.draw_apply]
  case withoutIds_eq =>
    intro slot drawn
    rfl
  case idle =>
    intro slot drawn hids
    rw [hrun, Context.draw_of_isNil_eq_false (hids _ List.mem_cons_self)]

namespace Node

/-- The identifiers of a node: its own, then those of its slots. -/
def ids (node : Node) : List Uuid := node.id :: node.slots.flatMap fun slot => [slot.id]

/-- The node without any identifiers. -/
def withoutIds (node : Node) : Node :=
  { node with id := .nil, slots := node.slots.map Slot.withoutIds }

theorem completes (supply : Nat → Uuid) :
    Completes supply ids withoutIds (complete (Context.draw supply)) :=
  (Slot.completes supply).whole Node.id Node.slots (fun node id slots => { node with id, slots })
    (fun _ _ _ => rfl) (fun _ _ _ => rfl) (fun _ => rfl) (fun _ _ _ _ _ => rfl)

end Node

namespace Context

/-- All identifiers of a context, in the order in which they are completed: its own, then those of each
    node. -/
def ids (context : Context) : List Uuid := context.id :: context.nodes.flatMap Node.ids

/-- The context without any identifiers. -/
def withoutIds (context : Context) : Context :=
  { context with id := .nil, nodes := context.nodes.map Node.withoutIds }

theorem completes (supply : Nat → Uuid) : Completes supply ids withoutIds (complete supply) :=
  (Node.completes supply).whole Context.id Context.nodes (fun context id nodes => { context with id, nodes })
    (fun _ _ _ => rfl) (fun _ _ _ => rfl) (fun _ => rfl) (fun _ _ _ _ _ => rfl)

/-- **Completion fills in what is missing and touches nothing else.** Take a supply without nil identifiers,
    of which some have been drawn already. In the completed context

    * no identifier is nil, be it the one of the context, of a node, disabled or not, or of a slot;
    * everything but the identifiers is as it was;
    * an identifier that was not nil is the one it was, and those that were nil are the next ones of the
      supply in order, the context before its nodes and a node before its slots;
    * as many have been drawn as were nil;
    * completing again, from whatever supply, draws nothing and changes nothing.

    A context that is loaded from a text has therefore no nil identifier. -/
theorem completion_fills_missing {context completed : Context} {drawn after : Nat}
    (hs : ∀ n, (supply n).isNil = false) (h : context.complete supply drawn = (completed, after)) :
    (∀ id ∈ completed.ids, id.isNil = false) ∧
    completed.withoutIds = context.withoutIds ∧
    Fills supply drawn context.ids completed.ids ∧
    after = drawn + context.ids.countP (·.isNil) ∧
    (∀ other again, completed.complete other again = (completed, again)) ∧
    ∀ text loaded, Context.load supply text = .ok loaded → ∀ id ∈ loaded.ids, id.isNil = false := by
  have hcomplete := completes supply
  have hfills : Fills supply drawn context.ids completed.ids := by
    have hfills := hcomplete.fills context drawn
    rwa [h] at hfills
  have hfilled : ∀ id ∈ completed.ids, id.isNil = false := hfills.isNil_eq_false hs
  refine ⟨hfilled, ?frame, hfills, ?count, ?again, ?load⟩
  case frame =>
    have hframe := hcomplete.withoutIds_eq context drawn
    rwa [h] at hframe
  case count =>
    have hcount := hcomplete.drawn_eq context drawn
    rwa [h] at hcount
  case again =>
    intro other again
    exact (completes other).idle completed again hfilled
  case load =>
    intro text loaded hl
    obtain ⟨read, -, rfl⟩ := map_eq_ok.mp hl
    exact (hcomplete.fills read 0).isNil_eq_false hs

/-- A supply that numbers its identifiers by their first digit. -/
def serial (n : Nat) : Uuid :=
  ⟨⟨n % 16, Nat.mod_lt n (by decide)⟩ :: List.replicate 31 (Fin.last 15),
    congrArg Nat.succ List.length_replicate⟩

/-- A context in which a disabled node and the slot of another node have identifiers already. -/
def halfNamed : Context :=
  ⟨.nil, "spray", .update, .particle,
    [⟨serial 9, Sequential.identity, .null, [.ofParameter "Count" "size"], true, .null⟩,
      ⟨.nil, Sequential.identity, .null, [{ Slot.ofParameter "Count" "size" with id := serial 8 }], false,
        .bool true⟩], .null⟩

/-- Three identifiers are drawn: for the context, for the slot of the disabled node, and for the other
    node. -/
theorem halfNamed_completion : ∃ completed,
    (∀ n, (serial n).isNil = false) ∧ halfNamed.complete serial 4 = (completed, 7) ∧
      completed.ids = [serial 4, serial 9, serial 5, serial 6, serial 8] ∧
      (∀ id ∈ completed.ids, id.isNil = false) ∧ completed.withoutIds = halfNamed.withoutIds ∧
      (∀ other again, completed.complete other again = (completed, again)) := by
  have hserial : ∀ n, (serial n).isNil = false := by
    intro n
    apply beq_false_of_ne
    intro h
    have hrest : List.replicate 31 (Fin.last 15) = Uuid.nil.digits.tail :=
      congrArg (fun id => id.digits.tail) h
    exact absurd hrest (by decide)
  obtain ⟨completed, hrun, hids⟩ : ∃ completed, halfNamed.complete serial 4 = (completed, 7) ∧
      completed.ids = [serial 4, serial 9, serial 5, serial 6, serial 8] := ⟨_, rfl, rfl⟩
  obtain ⟨hfilled, hframe, -, -, hagain, -⟩ := completion_fills_missing hserial hrun
  exact ⟨completed, hserial, hrun, hids, hfilled, hframe, hagain⟩

end Context
end EffectGraph
