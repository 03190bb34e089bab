import EffectGraph.Proofs.Sequential
import Mathlib.Data.List.Forall2

/-!
# `Proofs.Compilation` — a context compiles node by node and fails with its first failing node

Compilation goes through the nodes of a context once. A disabled node is passed over; any other node
has to pass five checks, each of which may only be asked once the ones before it were passed. The
checks are stated here for a node taken alone (`Node.Passes`, `Node.FailsWith`), and compilation is
shown to be nothing but these checks along the list:

* it succeeds when every enabled node passes, with the blocks that those nodes compile to alone;
* it fails with the failure of the first enabled node that does not pass.

Blocks are arbitrary here. All that is asked of them is that they get by with the inputs that they
declare (`Block.Contained`).
-/

namespace EffectGraph

open Outcome

/-- Whatever stands in the right of two related lists is related to something in the left. -/
theorem exists_of_mem_right {α β : Type} {R : α → β → Prop} {as : List α} {bs : List β} {b : β}
    (h : List.Forall₂ R as bs) (hb : b ∈ bs) : ∃ a ∈ as, R a b := by
  induction h with
  | nil => cases hb
  | @cons a b' as bs hab _ ih =>
    rcases List.mem_cons.mp hb with rfl | hb
    · exact ⟨a, List.mem_cons_self, hab⟩
    · obtain ⟨a', ha', hr⟩ := ih hb
      exact ⟨a', List.mem_cons_of_mem _ ha', hr⟩

/-! ## One node -/

namespace Node

/-- The checks on a node taken alone, with what each of them finds. -/
structure Passes (registry : Registry) (stage : Stage) (data : DataKind) (node : Node)
    (kind : BlockKind) (block : Block) (inputs : BoundInputs) : Prop where
  /-- The identity of the block is registered. -/
  registered : registry.get? node.block = some kind
  /-- The settings build. -/
  builds : kind.build node.settings = .ok block
  /-- The block may stand in a context of this stage. -/
  stage_mem : stage ∈ block.stages
  /-- The block works on the data of the context. -/
  data_eq : block.data = data
  /-- The slots bind. -/
  binds : (BoundInputs.ofSlots block.declarations node.slots).outcome = .ok inputs

/-- The node passes all checks. -/
def Valid (registry : Registry) (stage : Stage) (data : DataKind) (node : Node) : Prop :=
  ∃ kind block inputs, node.Passes registry stage data kind block inputs

/-- The node passes all checks, and its block compiles alone to the given one. -/
def Yields (registry : Registry) (stage : Stage) (data : DataKind) (node : Node)
    (compiled : CompiledBlock) : Prop :=
  ∃ kind block inputs, node.Passes registry stage data kind block inputs ∧
    (block.compile node.slots).outcome = .ok compiled

/-- The error of the first check that the node does not pass, for each check. -/
inductive FailsWith (registry : Registry) (stage : Stage) (data : DataKind) (path : String)
    (node : Node) : CompileError → Prop where
  | unregistered (hr : registry.get? node.block = none) :
      FailsWith registry stage data path node (.unknownBlock node.block path)
  | unbuilt {kind : BlockKind} {e : KindError} (hr : registry.get? node.block = some kind)
      (hb : kind.build node.settings = .error e) :
      FailsWith registry stage data path node (.ofKind path e)
  | misplaced {kind : BlockKind} {block : Block} (hr : registry.get? node.block = some kind)
      (hb : kind.build node.settings = .ok block) (hs : stage ∉ block.stages) :
      FailsWith registry stage data path node (.incompatibleStage path stage)
  | unrelated {kind : BlockKind} {block : Block} (hr : registry.get? node.block = some kind)
      (hb : kind.build node.settings = .ok block) (hs : stage ∈ block.stages)
      (hd : block.data ≠ data) :
      FailsWith registry stage data path node (.incompatibleData path data)
  | unbound {kind : BlockKind} {block : Block} {e : BindError}
      (hr : registry.get? node.block = some kind) (hb : kind.build node.settings = .ok block)
      (hs : stage ∈ block.stages) (hd : block.data = data)
      (he : (BoundInputs.ofSlots block.declarations node.slots).outcome = .error e) :
      FailsWith registry stage data path node (.binding path e)

variable {registry : Registry} {stage : Stage} {data : DataKind} {path : String} {node : Node}

/-- Either all checks are passed or there is a first one that is not. -/
theorem valid_or_fails (registry : Registry) (stage : Stage) (data : DataKind) (path : String)
    (node : Node) :
    node.Valid registry stage data ∨ ∃ e, node.FailsWith registry stage data path e := by
  cases hr : registry.get? node.block with
  | none => exact .inr ⟨_, .unregistered hr⟩
  | some kind =>
  cases hb : kind.build node.settings with
  | error e => exact .inr ⟨_, .unbuilt hr hb⟩
  | ok block =>
  by_cases hs : stage ∈ block.stages
  · by_cases hd : block.data = data
    · cases hi : (BoundInputs.ofSlots block.declarations node.slots).outcome with
      | error e => exact .inr ⟨_, .unbound hr hb hs hd hi⟩
      | ok inputs => exact .inl ⟨kind, block, inputs, hr, hb, hs, hd, hi⟩
    · exact .inr ⟨_, .unrelated hr hb hs hd⟩
  · exact .inr ⟨_, .misplaced hr hb hs⟩

theorem Yields.valid {compiled : CompiledBlock} (h : node.Yields registry stage data compiled) :
    node.Valid registry stage data := by
  obtain ⟨kind, block, inputs, hp, -⟩ := h
  exact ⟨kind, block, inputs, hp⟩

theorem Valid.exists_yields (hr : registry.Contained) (h : node.Valid registry stage data) :
    ∃ compiled, node.Yields registry stage data compiled := by
  obtain ⟨kind, block, inputs, hp⟩ := h
  obtain ⟨compiled, hc⟩ := (hr _ _ _ _ hp.registered hp.builds).exists_compile hp.binds
  exact ⟨compiled, kind, block, inputs, hp, hc⟩

theorem compile_of_yields {compiled : CompiledBlock}
    (h : node.Yields registry stage data compiled) :
    (node.compile registry stage data path).outcome = .ok compiled := by
  obtain ⟨kind, block, inputs, hp, hc⟩ := h
  simp [compile, build, hp.registered, hp.builds, hp.stage_mem, hp.data_eq, hc]

theorem compile_of_fails {e : CompileError} (h : node.FailsWith registry stage data path e) :
    (node.compile registry stage data path).outcome = .error e := by
  cases h with
  | unregistered hr => simp [compile, build, hr]
  | unbuilt hr hb => simp [compile, build, hr, hb]
  | misplaced hr hb hs => simp [compile, build, hr, hb, hs]
  | unrelated hr hb hs hd => simp [compile, build, hr, hb, hs, hd]
  | unbound hr hb hs hd he =>
    simp [compile, build, hr, hb, hs, hd, Block.compile_of_unbound he, CompileError.ofBlock]

theorem Valid.not_fails (hr : registry.Contained) (h : node.Valid registry stage data)
    {e : CompileError} : ¬ node.FailsWith registry stage data path e := by
  intro hf
  obtain ⟨compiled, hc⟩ := h.exists_yields hr
  have hok : (node.compile registry stage data path).outcome = .ok compiled := compile_of_yields hc
  have herr : (node.compile registry stage data path).outcome = .error e := compile_of_fails hf
  rw [herr] at hok
  cases hok

theorem compile_eq_ok (hr : registry.Contained) {compiled : CompiledBlock} :
    (node.compile registry stage data path).outcome = .ok compiled ↔
      node.Yields registry stage data compiled := by
  refine ⟨?_, compile_of_yields⟩
  intro h
  rcases node.valid_or_fails registry stage data path with hv | ⟨e, he⟩
  · obtain ⟨compiled', hc⟩ := hv.exists_yields hr
    rw [compile_of_yields hc, Except.ok.injEq] at h
    exact h ▸ hc
  · rw [compile_of_fails he] at h
    cases h

theorem compile_eq_error (hr : registry.Contained) {e : CompileError} :
    (node.compile registry stage data path).outcome = .error e ↔
      node.FailsWith registry stage data path e := by
  refine ⟨?_, compile_of_fails⟩
  intro h
  rcases node.valid_or_fails registry stage data path with hv | ⟨e', he⟩
  · obtain ⟨compiled, hc⟩ := hv.exists_yields hr
    rw [compile_of_yields hc] at h
    cases h
  · rw [compile_of_fails he, Except.error.injEq] at h
    exact h ▸ he

end Node

/-! ## The registry of the built-in kinds -/

namespace Registry

theorem get?_default {identity : String} {kind : BlockKind} (h : default.get? identity = some kind) :
    kind = .sequential := by
  have hlookup : List.lookup identity [(Sequential.identity, BlockKind.sequential)] = some kind := h
  rw [List.lookup_cons] at hlookup
  split at hlookup
  · exact (Option.some.inj hlookup).symm
  · cases hlookup

/-- Whatever the default registry builds is a sequence block. -/
theorem exists_settings_of_build {identity : String} {kind : BlockKind} {json : Json} {block : Block}
    (hr : default.get? identity = some kind) (hb : kind.build json = .ok block) :
    ∃ settings : Sequential.Settings, block = settings.block := by
  rw [get?_default hr] at hb
  simp only [BlockKind.sequential, BlockKind.ofSettings] at hb
  split at hb
  · exact ⟨_, (Except.ok.inj hb).symm⟩
  · obtain ⟨settings, -, hs⟩ := bind_eq_ok.mp hb
    exact ⟨settings, (Except.ok.inj hs).symm⟩

theorem default_contained : default.Contained := by
  intro identity kind json block hr hb
  obtain ⟨settings, rfl⟩ := exists_settings_of_build hr hb
  exact Sequential.block_contained settings

end Registry

/-! ## All nodes -/

namespace Context

/-- The nodes that are compiled, in order. -/
def enabled (nodes : List Node) : List Node := nodes.filter fun node => !node.disabled

/-- The first enabled node that does not pass all checks stands at some place of the list, and the
    error is the one of its first failed check. The path counts every node before it. -/
def FailsFirst (registry : Registry) (context : Context) (index : Nat) (nodes : List Node)
    (e : CompileError) : Prop :=
  ∃ (k : Nat) (node : Node), nodes[k]? = some node ∧ node.disabled = false ∧
    node.FailsWith registry context.stage context.data
      (blockPath context.name (index + k) node.block) e ∧
    ∀ j < k, ∀ other, nodes[j]? = some other → other.disabled = false →
      other.Valid registry context.stage context.data

variable {registry : Registry} {context : Context} {index : Nat} {node : Node} {nodes : List Node}
  {e : CompileError}

theorem enabled_cons : enabled (node :: nodes) =
    if node.disabled then enabled nodes else node :: enabled nodes := by
  cases h : node.disabled <;> simp [enabled, h]

theorem compileNodes_cons_of_disabled (hd : node.disabled = true) :
    (context.compileNodes registry index (node :: nodes)).outcome =
      (context.compileNodes registry (index + 1) nodes).outcome := by
  rw [compileNodes]
  simp [hd]; rfl

theorem compileNodes_cons_of_enabled (hd : node.disabled = false) :
    (context.compileNodes registry index (node :: nodes)).outcome = do
      let compiled ← (node.compile registry context.stage context.data
        (blockPath context.name index node.block)).outcome
      let others ← (context.compileNodes registry (index + 1) nodes).outcome
      return compiled :: others := by
  rw [compileNodes]
  simp [hd]; rfl

/-- **Success.** The blocks are the ones that the enabled nodes yield one by one. -/
theorem compileNodes_eq_ok (hr : registry.Contained) {blocks : List CompiledBlock} :
    (context.compileNodes registry index nodes).outcome = .ok blocks ↔
      List.Forall₂ (fun node => node.Yields registry context.stage context.data)
        (enabled nodes) blocks := by
  induction nodes generalizing index blocks with
  | nil => simp [compileNodes, enabled, eq_comm]
  | cons node rest ih =>
    cases hd : node.disabled with
    | true => rw [compileNodes_cons_of_disabled hd, ih, enabled_cons, if_pos hd]
    | false =>
      rw [compileNodes_cons_of_enabled hd, enabled_cons, hd, if_neg Bool.false_ne_true]
      simp only [bind_eq_ok, pure_eq_ok, Node.compile_eq_ok hr, ih, List.forall₂_cons_left_iff]
      constructor
      · rintro ⟨compiled, hc, others, ho, rfl⟩; exact ⟨compiled, others, hc, ho, rfl⟩
      · rintro ⟨compiled, others, hc, ho, rfl⟩; exact ⟨compiled, hc, others, ho, rfl⟩

/-- The first failing node is the head of the list, or the head does not fail and it is the first one
    of the tail. -/
theorem failsFirst_cons :
    FailsFirst registry context index (node :: nodes) e ↔
      (node.disabled = false ∧ node.FailsWith registry context.stage context.data
        (blockPath context.name index node.block) e) ∨
      ((node.disabled = false → node.Valid registry context.stage context.data) ∧
        FailsFirst registry context (index + 1) nodes e) := by
  -- place `k` of the tail is place `k + 1` of the list, and both have one path
  have hshift : ∀ k, index + 1 + k = index + (k + 1) := by
    intro k; omega
  constructor
  · rintro ⟨k, found, hk, hd, hf, hbefore⟩
    cases k with
    | zero =>
      obtain rfl : node = found := Option.some.inj hk
      exact .inl ⟨hd, hf⟩
    | succ k =>
      have hhead : node.disabled = false → node.Valid registry context.stage context.data :=
        hbefore 0 k.succ_pos node rfl
      refine .inr ⟨hhead, k, found, hk, hd, hshift k ▸ hf, ?_⟩
      intro j hj
      exact hbefore (j + 1) (Nat.succ_lt_succ hj)
  · rintro (⟨hd, hf⟩ | ⟨hv, k, found, hk, hd, hf, hbefore⟩)
    · refine ⟨0, node, rfl, hd, hf, ?_⟩
      intro j hj
      exact absurd hj j.not_lt_zero
    · refine ⟨k + 1, found, hk, hd, hshift k ▸ hf, ?_⟩
      intro j hj other ho hdo
      cases j with
      | zero =>
        obtain rfl : node = other := Option.some.inj ho
        exact hv hdo
      | succ j => exact hbefore j (Nat.lt_of_succ_lt_succ hj) other ho hdo

/-- **Failure.** The error is the one of the first enabled node that does not pass. -/
theorem compileNodes_eq_error (hr : registry.Contained) :
    (context.compileNodes registry index nodes).outcome = .error e ↔
      FailsFirst registry context index nodes e := by
  induction nodes generalizing index with
  | nil => simp [compileNodes, FailsFirst]
  | cons node rest ih =>
    rw [failsFirst_cons]
    cases hd : node.disabled with
    | true => rw [compileNodes_cons_of_disabled hd, ih]; simp
    | false =>
      rw [compileNodes_cons_of_enabled hd]
      simp only [bind_eq_error, pure_ne_error, Node.compile_eq_error hr, Node.compile_eq_ok hr, ih,
        and_false, exists_false, or_false, true_and, forall_const]
      -- the tail is reached when the head yields a block, that is, when it is valid
      refine or_congr_right ⟨?_, ?_⟩
      · rintro ⟨compiled, hc, hf⟩
        exact ⟨hc.valid, hf⟩
      · rintro ⟨hv, hf⟩
        obtain ⟨compiled, hc⟩ := hv.exists_yields hr
        exact ⟨compiled, hc, hf⟩

/-- Two nodes do the same to a compilation: both are passed over, or both compile to one outcome
    under one path, whatever it is. -/
def Interchangeable (registry : Registry) (stage : Stage) (data : DataKind) (a b : Node) : Prop :=
  (a.disabled = true ∧ b.disabled = true) ∨
  (a.disabled = false ∧ b.disabled = false ∧ a.block = b.block ∧
    ∀ path, (a.compile registry stage data path).outcome = (b.compile registry stage data path).outcome)

/-- Interchangeable nodes may be exchanged one by one. -/
theorem compileNodes_of_interchangeable {other : Context} {nodes' : List Node}
    (hname : other.name = context.name) (hstage : other.stage = context.stage)
    (hdata : other.data = context.data)
    (h : List.Forall₂ (Interchangeable registry context.stage context.data) nodes nodes') :
    (other.compileNodes registry index nodes').outcome =
      (context.compileNodes registry index nodes).outcome := by
  induction h generalizing index with
  | nil => rfl
  | cons hab _ ih =>
    rcases hab with ⟨ha, hb⟩ | ⟨ha, hb, hblock, hcompile⟩
    · -- both heads are passed over, whatever they are
      rw [compileNodes_cons_of_disabled ha, compileNodes_cons_of_disabled hb, ih]
    · rw [compileNodes_cons_of_enabled ha, compileNodes_cons_of_enabled hb, ih, hname, hstage, hdata,
        hblock, hcompile]

/-- Nothing about a disabled node matters to the outcome. -/
theorem compileNodes_congr {other : Context} {nodes' : List Node}
    (hname : other.name = context.name) (hstage : other.stage = context.stage)
    (hdata : other.data = context.data)
    (h : List.Forall₂ (fun a b => a = b ∨ a.disabled = true ∧ b.disabled = true) nodes nodes') :
    (other.compileNodes registry index nodes').outcome =
      (context.compileNodes registry index nodes).outcome := by
  refine compileNodes_of_interchangeable hname hstage hdata (h.imp ?_)
  rintro a b (rfl | hdisabled)
  · cases hd : a.disabled with
    | true => exact .inl ⟨hd, hd⟩
    | false => exact .inr ⟨hd, hd, rfl, fun _ => rfl⟩
  · exact .inl hdisabled

/-! ## Contexts -/

theorem compile_eq_ok {compiled : CompiledContext} :
    (context.compile registry).outcome = .ok compiled ↔
      ∃ blocks, (context.compileNodes registry 0 context.nodes).outcome = .ok blocks ∧
        compiled = ⟨context.name, context.stage, blocks,
          Requirement.merge [] (blocks.flatMap (·.requirements))⟩ := by
  simp only [compile, Noted.outcome_bind, Noted.outcome_note, Noted.outcome_pure, bind_eq_ok,
    Except.ok.injEq]
  constructor
  · rintro ⟨blocks, hb, _, -, rfl⟩; exact ⟨blocks, hb, rfl⟩
  · rintro ⟨blocks, hb, rfl⟩; exact ⟨blocks, hb, (), trivial, rfl⟩

theorem compile_eq_error :
    (context.compile registry).outcome = .error e ↔
      (context.compileNodes registry 0 context.nodes).outcome = .error e := by
  simp [compile]

/-- Merging all requirements at once is merging them block by block. -/
theorem merge_flatMap (merged : List Requirement) (blocks : List CompiledBlock) :
    Requirement.merge merged (blocks.flatMap (·.requirements)) =
      blocks.foldl (fun merged block => Requirement.merge merged block.requirements) merged := by
  simp only [Requirement.merge, List.foldl_flatMap]

/-- The blocks of a compiled context are what its enabled nodes yield. -/
theorem forall₂_yields (hr : registry.Contained) {compiled : CompiledContext}
    (h : (context.compile registry).outcome = .ok compiled) :
    List.Forall₂ (fun node => node.Yields registry context.stage context.data)
      (enabled context.nodes) compiled.blocks := by
  obtain ⟨blocks, hb, rfl⟩ := compile_eq_ok.mp h
  exact (compileNodes_eq_ok hr).mp hb

/-- A context compiles exactly when all its enabled nodes are valid. -/
theorem exists_compile_iff (hr : registry.Contained) :
    (∃ compiled, (context.compile registry).outcome = .ok compiled) ↔
      ∀ node ∈ context.nodes, node.disabled = false →
        node.Valid registry context.stage context.data := by
  constructor
  · rintro ⟨compiled, hc⟩ node hn hd
    have hmem : node ∈ enabled context.nodes := List.mem_filter.mpr ⟨hn, by simp [hd]⟩
    obtain ⟨block, -, hy⟩ := exists_of_mem_right (forall₂_yields hr hc).flip hmem
    exact Node.Yields.valid hy
  · intro hall
    cases h : (context.compile registry).outcome with
    | ok compiled => exact ⟨compiled, rfl⟩
    | error e =>
      -- the first failing node would be both valid and failing
      obtain ⟨k, node, hk, hd, hf, -⟩ := (compileNodes_eq_error hr).mp (compile_eq_error.mp h)
      have hvalid : node.Valid registry context.stage context.data :=
        hall node (List.mem_of_getElem? hk) hd
      exact absurd hf (hvalid.not_fails hr)

/-- **A context compiles node by node.** Against a registry of contained blocks,

    * compilation succeeds exactly when every enabled node passes the five checks alone;
    * its blocks are then the ones that the enabled nodes compile to alone, in order, and its
      requirements are those of the blocks merged one block after another;
    * it fails exactly with the failure of the first enabled node that does not pass, at the path
      that counts all nodes before it;
    * disabled nodes may be exchanged for any other disabled nodes. -/
theorem compile_nodewise (hr : registry.Contained) (context : Context) :
    ((∃ compiled, (context.compile registry).outcome = .ok compiled) ↔
      ∀ node ∈ context.nodes, node.disabled = false →
        node.Valid registry context.stage context.data) ∧
    (∀ compiled, (context.compile registry).outcome = .ok compiled →
      compiled.name = context.name ∧ compiled.stage = context.stage ∧
      List.Forall₂ (fun node => node.Yields registry context.stage context.data)
        (enabled context.nodes) compiled.blocks ∧
      compiled.requirements = compiled.blocks.foldl
        (fun merged block => Requirement.merge merged block.requirements) []) ∧
    (∀ e, (context.compile registry).outcome = .error e ↔
      FailsFirst registry context 0 context.nodes e) ∧
    (∀ other : Context, other.name = context.name → other.stage = context.stage →
      other.data = context.data →
      List.Forall₂ (fun a b => a = b ∨ a.disabled = true ∧ b.disabled = true)
        context.nodes other.nodes →
      (other.compile registry).outcome = (context.compile registry).outcome) := by
  refine ⟨exists_compile_iff hr, ?_, ?_, ?_⟩
  · intro compiled h
    have hyields := forall₂_yields hr h
    obtain ⟨blocks, -, rfl⟩ := compile_eq_ok.mp h
    exact ⟨rfl, rfl, hyields, merge_flatMap [] blocks⟩
  · intro e
    exact compile_eq_error.trans (compileNodes_eq_error hr)
  · intro other hn hs hd h
    have hnodes : (other.compileNodes registry 0 other.nodes).outcome =
        (context.compileNodes registry 0 context.nodes).outcome := compileNodes_congr hn hs hd h
    simp [compile, hnodes, hn, hs]

/-- A context of a node of an unknown kind that is disabled, a ring, and a line whose count is bound
    to a literal of the given type. -/
def threeNodes (type : ValueType) : Context :=
  ⟨.nil, "spray", .update, .particle,
    [(Node.new "turbulence" .null []).disable,
      .sequential ⟨.circle, .particleId, .same⟩ [.ofParameter "Count" "size"],
      .new Sequential.identity .null [.ofValue "Count" (.one type)]], .null⟩

/-- A count that is no integer fails the third node, under its own path; with an integer both enabled
    nodes compile. -/
theorem threeNodes_nodewise :
    FailsFirst .default (threeNodes .float) 0 (threeNodes .float).nodes
      (.binding "spray/2#position_sequential" (.typeMismatch "Count" .uint32 .float)) ∧
    (∀ node ∈ (threeNodes .uint32).nodes, node.disabled = false →
      node.Valid .default .update .particle) ∧
    ∃ compiled, ((threeNodes .uint32).compile .default).outcome = .ok compiled ∧
      compiled.blocks.length = 2 ∧
      List.Forall₂ (fun node => node.Yields .default .update .particle)
        (enabled (threeNodes .uint32).nodes) compiled.blocks := by
  obtain ⟨-, -, failing, -⟩ := compile_nodewise Registry.default_contained (threeNodes .float)
  obtain ⟨compiling, blocks, -⟩ := compile_nodewise Registry.default_contained (threeNodes .uint32)
  obtain ⟨compiled, hc, hlength⟩ : ∃ compiled,
      ((threeNodes .uint32).compile .default).outcome = .ok compiled ∧ compiled.blocks.length = 2 :=
    ⟨_, rfl, rfl⟩
  obtain ⟨-, -, hyields, -⟩ := blocks compiled hc
  exact ⟨(failing _).mp rfl, compiling.mp ⟨compiled, hc⟩, compiled, hc, hlength, hyields⟩

end Context
end EffectGraph
