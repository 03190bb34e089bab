import EffectGraph.Proofs.Usage

/-!
# `Proofs.SourceText` — what the source of a context tells

The source of a context is one text, in which every block has a comment line and a line for each statement.
Of a block it tells the shape and whether there is a target (`Sequential.Form`), and nothing else. Of the
context it tells the sequence of these forms, all of it: no line holds a newline, so the text falls into its
lines again (`Text.lines_intercalate`), and no statement looks like a comment, so the lines fall into blocks
again (`Form.flatMap_lines_inj`).

The form of a compiled block is read off from its expressions (`CompiledBlock.form?`), not from its texts.
That it is the form of the settings that the block was built with is `Sequential.form?_of_compile`.
-/

namespace EffectGraph

open Outcome

/-! ## Lines of a text -/

namespace Text

/-- The parts without the last one if that is empty. -/
def dropEmptyLast (parts : List (List Char)) : List (List Char) :=
  if parts.getLast? = some [] then parts.dropLast else parts

/-- The lines of a text. A newline ends a line, and the last line may go without it, so that an empty text
    has no lines. -/
def lines (text : String) : List String :=
  (dropEmptyLast (text.toList.splitOn '\n')).map String.ofList

/-- A text that can stand as a line among others. -/
def IsLine (line : String) : Prop := '\n' ∉ line.toList ∧ line.toList ≠ []

instance (line : String) : Decidable (IsLine line) := inferInstanceAs (Decidable (_ ∧ _))

/-- **Joined lines fall into the same lines again.** -/
theorem lines_intercalate {ls : List String} (h : ∀ line ∈ ls, IsLine line) :
    lines ("\n".intercalate ls) = ls := by
  by_cases hne : ls = []
  · subst hne
    rw [String.intercalate_nil]
    rfl
  · have hbreak : ∀ part ∈ ls.map String.toList, '\n' ∉ part := by
      intro part hpart
      obtain ⟨line, hline, rfl⟩ := List.mem_map.mp hpart
      exact (h line hline).1
    have hparts : ("\n".intercalate ls).toList.splitOn '\n' = ls.map String.toList := by
      rw [String.toList_intercalate]
      exact List.splitOn_intercalate '\n' hbreak (by simpa using hne)
    -- the last line is not an empty one, so it is not taken for the end of the one before
    have hlast : (ls.map String.toList).getLast? ≠ some [] := by
      intro hlast
      obtain ⟨line, hline, hempty⟩ := List.mem_map.mp (List.mem_of_getLast? hlast)
      exact (h line hline).2 hempty
    unfold lines dropEmptyLast
    rw [hparts, if_neg hlast, List.map_map]
    simp [Function.comp_def]

/-- Joining joined lines is joining all of them. -/
theorem intercalate_flatten {parts : List (List String)} (h : ∀ part ∈ parts, part ≠ []) :
    "\n".intercalate (parts.map "\n".intercalate) = "\n".intercalate parts.flatten := by
  induction parts with
  | nil => rfl
  | cons part rest ih =>
    obtain ⟨hpart, hrest⟩ := List.forall_mem_cons.mp h
    cases rest with
    | nil => simp
    | cons next rest =>
      have hnext : (next :: rest).flatten ≠ [] := by
        rw [List.flatten_cons]
        exact List.append_ne_nil_of_left_ne_nil (hrest next List.mem_cons_self) _
      rw [List.flatten_cons, String.intercalate_append_of_ne_nil hpart hnext, ← ih hrest, List.map_cons,
        String.intercalate_cons_of_ne_nil (by simp)]

end Text

/-! ## Forms -/

namespace Sequential

/-- What the source of a sequence block tells of it. -/
structure Form where
  shape : Shape
  /-- Whether a target position is computed. -/
  hasTarget : Bool
deriving DecidableEq, Repr

/-- The form of the block of given settings. -/
def Settings.form (settings : Settings) : Form := ⟨settings.shape, settings.target.hasTarget⟩

/-- The shape whose elements an expression computes. -/
def shapeOf? : Expression → Option Shape
  | .line .. => some .line
  | .circle .. => some .circle
  | .lattice .. => some .threeDimensional
  | _ => none

theorem shapeOf?_element (shape : Shape) (input : String → Expression) (index : Expression) :
    shapeOf? (element shape input index) = some shape := by
  cases shape <;> rfl

end Sequential

namespace CompiledBlock

/-- Whether the block computes a target position. -/
def hasTarget (block : CompiledBlock) : Bool :=
  (block.parameter? Sequential.computedTargetPosition).isSome

/-- The form of a compiled block, as its expressions show it. -/
def form? (block : CompiledBlock) : Option Sequential.Form := do
  let position ← block.parameter? Sequential.computedPosition
  let shape ← Sequential.shapeOf? position.expression
  return ⟨shape, block.hasTarget⟩

/-- The text of a block in the source of its context. -/
def commented (block : CompiledBlock) : String := "// " ++ block.name ++ "\n" ++ block.source

end CompiledBlock

namespace Sequential

variable {settings : Settings} {slots : List Slot} {compiled : CompiledBlock} {form other : Form}

theorem hasTarget_of_compile (h : (settings.block.compile slots).outcome = .ok compiled) :
    compiled.hasTarget = settings.target.hasTarget := by
  obtain ⟨inputs, -, hparameters⟩ := parameters_of_compile h
  obtain ⟨-, htarget⟩ := parameter?_named hparameters
  rw [CompiledBlock.hasTarget, htarget, Option.isSome_map, ComputedPositions.target?, elementTarget]
  cases settings.target <;> rfl

/-- **The expressions of a block show the form of its settings.** -/
theorem form?_of_compile (h : (settings.block.compile slots).outcome = .ok compiled) :
    compiled.form? = some settings.form := by
  obtain ⟨inputs, -, hparameters⟩ := parameters_of_compile h
  obtain ⟨hposition, -⟩ := parameter?_named hparameters
  rw [CompiledBlock.form?, hposition, hasTarget_of_compile h]
  show (shapeOf? (element settings.shape _ _)).bind _ = _
  rw [shapeOf?_element]
  rfl

namespace Form

/-- The comment that names a block. -/
def comment (form : Form) : String := "// " ++ ("Position : Sequential (" ++ form.shape.name ++ ")")

/-- The lines of a block of a form. -/
def lines (form : Form) : List String :=
  form.comment :: addition .position computedPosition ::
    if form.hasTarget then [targetStatement] else []

theorem isLine_of_mem_lines {line : String} (h : line ∈ form.lines) : Text.IsLine line := by
  have hall : ∀ shape : Shape, ∀ hasTarget : Bool, ∀ line ∈ lines ⟨shape, hasTarget⟩,
      Text.IsLine line := by
    intro shape hasTarget
    cases shape <;> cases hasTarget <;> decide
  exact hall form.shape form.hasTarget line h

theorem length_lines (form : Form) : form.lines.length = 2 + form.hasTarget.toNat := by
  obtain ⟨shape, hasTarget⟩ := form
  cases hasTarget <;> rfl

theorem comment_inj (h : form.comment = other.comment) : form.shape = other.shape := by
  have hall : ∀ shape otherShape : Shape, comment ⟨shape, false⟩ = comment ⟨otherShape, false⟩ →
      shape = otherShape := by
    intro shape otherShape
    cases shape <;> cases otherShape <;> decide
  exact hall form.shape other.shape h

/-- A statement is no comment. -/
theorem comment_ne_targetStatement (form : Form) : form.comment ≠ targetStatement := by
  have hall : ∀ shape : Shape, comment ⟨shape, false⟩ ≠ targetStatement := by
    intro shape
    cases shape <;> decide
  exact hall form.shape

/-- The statement for a target is never where the lines of a block begin. -/
theorem flatMap_lines_ne_target {forms : List Form} {rest : List String} :
    forms.flatMap lines ≠ targetStatement :: rest := by
  cases forms with
  | nil => nofun
  | cons form forms =>
    intro h
    exact form.comment_ne_targetStatement (List.cons.inj h).1

/-- **The lines of blocks tell their forms**, since a block ends where the next comment stands. -/
theorem flatMap_lines_inj {forms others : List Form} (h : forms.flatMap lines = others.flatMap lines) :
    forms = others := by
  induction forms generalizing others with
  | nil =>
    cases others with
    | nil => rfl
    | cons other others => cases h
  | cons form forms ih =>
    cases others with
    | nil => cases h
    | cons other others =>
      obtain ⟨shape, hasTarget⟩ := form
      obtain ⟨otherShape, otherHasTarget⟩ := other
      obtain ⟨hcomment, hrest⟩ := List.cons.inj h
      obtain ⟨-, hrest⟩ := List.cons.inj hrest
      obtain rfl : shape = otherShape := comment_inj hcomment
      cases hasTarget with
      | true =>
        cases otherHasTarget with
        | true =>
          obtain ⟨-, hrest⟩ := List.cons.inj hrest
          rw [ih hrest]
        | false =>
          -- one block goes on with a statement where the other one has ended
          exact absurd hrest.symm flatMap_lines_ne_target
      | false =>
        cases otherHasTarget with
        | true => exact absurd hrest flatMap_lines_ne_target
        | false => rw [ih hrest]

end Form

/-- The text of a block is made of the lines of its form. -/
theorem commented_of_compile (h : (settings.block.compile slots).outcome = .ok compiled) :
    compiled.commented = "\n".intercalate settings.form.lines := by
  obtain ⟨inputs, parameters, -, -, rfl⟩ := Block.compile_eq_ok.mp h
  show "// " ++ ("Position : Sequential (" ++ settings.shape.name ++ ")") ++ "\n" ++
    source settings.target.hasTarget = "\n".intercalate (Form.lines ⟨_, settings.target.hasTarget⟩)
  cases settings.target.hasTarget with
  | false => simp [Form.lines, Form.comment, source]
  | true => simp [Form.lines, Form.comment, source, addition_target, String.append_assoc]

end Sequential

/-! ## Contexts -/

namespace CompiledBlock

/-- The block has a form, and its text is made of the lines of that form. -/
structure WrittenIn (block : CompiledBlock) (form : Sequential.Form) : Prop where
  form?_eq : block.form? = some form
  hasTarget_eq : block.hasTarget = form.hasTarget
  commented_eq : block.commented = "\n".intercalate form.lines

end CompiledBlock

theorem Sequential.writtenIn_of_compile {settings : Settings} {slots : List Slot}
    {compiled : CompiledBlock} (h : (settings.block.compile slots).outcome = .ok compiled) :
    compiled.WrittenIn settings.form where
  form?_eq := form?_of_compile h
  hasTarget_eq := hasTarget_of_compile h
  commented_eq := commented_of_compile h

/-- Related lists come out alike under functions that agree on what is related. -/
theorem map_eq_map_of_forall₂ {α β γ : Type} {R : α → β → Prop} {f : α → γ} {g : β → γ} {as : List α}
    {bs : List β} (h : List.Forall₂ R as bs) (hfg : ∀ a b, R a b → f a = g b) : as.map f = bs.map g := by
  induction h with
  | nil => rfl
  | cons hab _ ih => rw [List.map_cons, List.map_cons, hfg _ _ hab, ih]

namespace CompiledContext

open EffectGraph.Sequential (Form)

variable {compiled first second : CompiledContext} {forms : List Form}

theorem source_eq (compiled : CompiledContext) :
    compiled.source = "\n".intercalate (compiled.blocks.map (·.commented)) :=
  rfl

/-- The source of blocks in two parts that are not empty is the one of each part, with a newline between. -/
theorem source_append (hf : first.blocks ≠ []) (hs : second.blocks ≠ [])
    (h : compiled.blocks = first.blocks ++ second.blocks) :
    compiled.source = first.source ++ "\n" ++ second.source := by
  rw [source_eq, source_eq, source_eq, h, List.map_append]
  exact String.intercalate_append_of_ne_nil (by simpa using hf) (by simpa using hs)

/-- The source is made of the lines of all forms. -/
theorem source_of_writtenIn (h : List.Forall₂ CompiledBlock.WrittenIn compiled.blocks forms) :
    compiled.source = "\n".intercalate (forms.flatMap Form.lines) := by
  have htexts : compiled.blocks.map (·.commented) = (forms.map Form.lines).map "\n".intercalate := by
    rw [List.map_map]
    exact map_eq_map_of_forall₂ h fun _ _ hw => hw.commented_eq
  have hlines : ∀ part ∈ forms.map Form.lines, part ≠ [] := by
    intro part hpart
    obtain ⟨form, -, rfl⟩ := List.mem_map.mp hpart
    exact List.cons_ne_nil _ _
  rw [source_eq, htexts, Text.intercalate_flatten hlines, List.flatMap_def]

theorem lines_source (h : List.Forall₂ CompiledBlock.WrittenIn compiled.blocks forms) :
    Text.lines compiled.source = forms.flatMap Form.lines := by
  rw [source_of_writtenIn h]
  apply Text.lines_intercalate
  intro line hline
  obtain ⟨form, -, hl⟩ := List.mem_flatMap.mp hline
  exact Form.isLine_of_mem_lines hl

/-- **The source tells the sequence of forms.** -/
theorem source_eq_iff {other : CompiledContext} {otherForms : List Form}
    (h : List.Forall₂ CompiledBlock.WrittenIn compiled.blocks forms)
    (ho : List.Forall₂ CompiledBlock.WrittenIn other.blocks otherForms) :
    compiled.source = other.source ↔ forms = otherForms := by
  constructor
  · intro hsource
    apply Form.flatMap_lines_inj
    rw [← lines_source h, ← lines_source ho, hsource]
  · rintro rfl
    rw [source_of_writtenIn h, source_of_writtenIn ho]

/-- Two lines for each form, and one more for a target. -/
theorem length_flatMap_lines (forms : List Form) :
    (forms.flatMap Form.lines).length = 2 * forms.length + forms.countP (·.hasTarget) := by
  induction forms with
  | nil => rfl
  | cons form forms ih =>
    rw [List.flatMap_cons, List.length_append, Form.length_lines, ih, List.length_cons, List.countP_cons]
    cases form.hasTarget <;> simp <;> omega

end CompiledContext

namespace Context

variable {registry : Registry} {context other : Context} {compiled otherCompiled : CompiledContext}
  {nodes first second : List Node} {blocks : List CompiledBlock}

/-- Nodes that yield blocks one by one make a context of these blocks. -/
theorem exists_compile_of_yields (hr : registry.Contained) (henabled : enabled nodes = nodes)
    (h : List.Forall₂ (fun node => node.Yields registry context.stage context.data) nodes blocks) :
    ∃ part, ((context.withNodes nodes).compile registry).outcome = .ok part ∧ part.blocks = blocks := by
  have hblocks : ((context.withNodes nodes).compileNodes registry 0 nodes).outcome = .ok blocks := by
    rw [compileNodes_eq_ok hr, henabled]
    exact h
  exact ⟨_, compile_eq_ok.mpr ⟨blocks, hblocks, rfl⟩, rfl⟩

/-- **The enabled nodes in two parts compile to the blocks in two parts.** -/
theorem compile_split (hr : registry.Contained)
    (h : (context.compile registry).outcome = .ok compiled)
    (hsplit : enabled context.nodes = first ++ second) :
    ∃ a b, ((context.withNodes first).compile registry).outcome = .ok a ∧
      ((context.withNodes second).compile registry).outcome = .ok b ∧
      compiled.blocks = a.blocks ++ b.blocks ∧ a.blocks.length = first.length ∧
      b.blocks.length = second.length := by
  have hyields := (forall₂_yields hr h).flip
  rw [hsplit] at hyields
  have hfirst := (List.forall₂_take_append _ _ _ hyields).flip
  have hsecond := (List.forall₂_drop_append _ _ _ hyields).flip
  -- the nodes of both parts are enabled ones
  have henabled : ∀ node ∈ first ++ second, (!node.disabled) = true := by
    rw [← hsplit]
    intro node hn
    exact (List.mem_filter.mp hn).2
  have henabledFirst : enabled first = first :=
    List.filter_eq_self.mpr fun node hn => henabled node (List.mem_append_left _ hn)
  have henabledSecond : enabled second = second :=
    List.filter_eq_self.mpr fun node hn => henabled node (List.mem_append_right _ hn)
  obtain ⟨a, ha, hablocks⟩ := exists_compile_of_yields hr henabledFirst hfirst
  obtain ⟨b, hb, hbblocks⟩ := exists_compile_of_yields hr henabledSecond hsecond
  refine ⟨a, b, ha, hb, ?_, hablocks ▸ hfirst.length_eq.symm, hbblocks ▸ hsecond.length_eq.symm⟩
  rw [hablocks, hbblocks, List.take_append_drop]

/-- With the built-in kinds a node yields the block of settings that it was authored with. -/
theorem exists_settings_of_yields {stage : Stage} {data : DataKind} {node : Node} {block : CompiledBlock}
    (h : node.Yields Registry.default stage data block) :
    ∃ settings : Sequential.Settings, BlockKind.sequential.build node.settings = .ok settings.block ∧
      block.WrittenIn settings.form := by
  obtain ⟨kind, built, inputs, hp, hc⟩ := h
  obtain ⟨settings, rfl⟩ := Registry.exists_settings_of_build hp.registered hp.builds
  have hkind : kind = .sequential := Registry.get?_default hp.registered
  exact ⟨settings, hkind ▸ hp.builds, Sequential.writtenIn_of_compile hc⟩

theorem exists_forms_of_yields {stage : Stage} {data : DataKind}
    (h : List.Forall₂ (fun node => node.Yields Registry.default stage data) nodes blocks) :
    ∃ forms, List.Forall₂ CompiledBlock.WrittenIn blocks forms := by
  induction h with
  | nil => exact ⟨[], .nil⟩
  | cons hy _ ih =>
    obtain ⟨settings, -, hw⟩ := exists_settings_of_yields hy
    obtain ⟨forms, hforms⟩ := ih
    exact ⟨settings.form :: forms, .cons hw hforms⟩

/-- The blocks of a context that was compiled with the built-in kinds have forms. -/
theorem exists_forms (h : (context.compile Registry.default).outcome = .ok compiled) :
    ∃ forms, List.Forall₂ CompiledBlock.WrittenIn compiled.blocks forms :=
  exists_forms_of_yields (forall₂_yields Registry.default_contained h)

/-- **The source of a context loses nothing of the forms of its blocks.** For contexts that compile with
    the built-in kinds,

    * every block has a form, its shape and whether it has a target, and it is the form of the settings that
      its node was authored with;
    * two contexts have one source exactly if their blocks have one sequence of forms;
    * if the enabled nodes are split into two parts that are not empty, both parts compile by themselves,
      and the source is the one of the first part, a newline and the one of the second;
    * the source has two lines for each block and one more for each target. -/
theorem source_tells_forms (h : (context.compile Registry.default).outcome = .ok compiled)
    (ho : (other.compile Registry.default).outcome = .ok otherCompiled) :
    List.Forall₂ (fun node block => ∃ settings : Sequential.Settings,
        BlockKind.sequential.build node.settings = .ok settings.block ∧
          block.form? = some settings.form) (enabled context.nodes) compiled.blocks ∧
    (compiled.source = otherCompiled.source ↔
      compiled.blocks.map (·.form?) = otherCompiled.blocks.map (·.form?)) ∧
    (∀ first second, first ≠ [] → second ≠ [] → enabled context.nodes = first ++ second →
      ∃ a b, ((context.withNodes first).compile Registry.default).outcome = .ok a ∧
        ((context.withNodes second).compile Registry.default).outcome = .ok b ∧
        compiled.source = a.source ++ "\n" ++ b.source) ∧
    (Text.lines compiled.source).length =
      2 * compiled.blocks.length + compiled.blocks.countP (·.hasTarget) := by
  obtain ⟨forms, hforms⟩ := exists_forms h
  obtain ⟨otherForms, hother⟩ := exists_forms ho
  refine ⟨?authored, ?same, ?split, ?count⟩
  case authored =>
    refine (forall₂_yields Registry.default_contained h).imp ?_
    intro node block hy
    obtain ⟨settings, hbuild, hw⟩ := exists_settings_of_yields hy
    exact ⟨settings, hbuild, hw.form?_eq⟩
  case same =>
    have hshown : compiled.blocks.map (·.form?) = forms.map some :=
      map_eq_map_of_forall₂ hforms fun _ _ hw => hw.form?_eq
    have hotherShown : otherCompiled.blocks.map (·.form?) = otherForms.map some :=
      map_eq_map_of_forall₂ hother fun _ _ hw => hw.form?_eq
    rw [CompiledContext.source_eq_iff hforms hother, hshown, hotherShown,
      List.map_inj_right fun _ _ => Option.some.inj]
  case split =>
    intro first second hf hs hsplit
    obtain ⟨a, b, ha, hb, hblocks, hfirst, hsecond⟩ := compile_split Registry.default_contained h hsplit
    rw [← List.length_pos_iff] at hf hs
    have hane : a.blocks ≠ [] := List.length_pos_iff.mp (by omega)
    have hbne : b.blocks ≠ [] := List.length_pos_iff.mp (by omega)
    exact ⟨a, b, ha, hb, CompiledContext.source_append hane hbne hblocks⟩
  case count =>
    have htargets : compiled.blocks.map (·.hasTarget) = forms.map (·.hasTarget) :=
      map_eq_map_of_forall₂ hforms fun _ _ hw => hw.hasTarget_eq
    have hcount : compiled.blocks.countP (·.hasTarget) = forms.countP (·.hasTarget) := by
      have hmapped := congrArg (List.countP fun hasTarget => hasTarget) htargets
      rwa [List.countP_map, List.countP_map] at hmapped
    rw [CompiledContext.lines_source hforms, CompiledContext.length_flatMap_lines, hforms.length_eq, hcount]

/-- A lattice and a ring again, with other sources of their indices, other slots and the next element for
    a target. -/
def latticeThenNextRing : Context :=
  ⟨.nil, "mist", .init, .particle,
    [.sequential ⟨.threeDimensional, .particleId, .none⟩ [],
      .sequential ⟨.circle, .custom, .next⟩ [.ofValue "Radius" (.float 2)]], .null⟩

/-- The two contexts have one source, which is the one of the lattice, a newline and the one of the ring. It
    has five lines, the fifth of them for the target of the ring. -/
theorem latticeThenRing_source : ∃ compiled otherCompiled lattice ring,
    (latticeThenRing.compile Registry.default).outcome = .ok compiled ∧
      (latticeThenNextRing.compile Registry.default).outcome = .ok otherCompiled ∧
      compiled.blocks.map (·.form?) = [some ⟨.threeDimensional, false⟩, some ⟨.circle, true⟩] ∧
      compiled.source = otherCompiled.source ∧
      ((latticeThenRing.withNodes [.sequential ⟨.threeDimensional, .custom, .none⟩
        [.ofParameter "Index" "step"]]).compile Registry.default).outcome = .ok lattice ∧
      ((latticeThenRing.withNodes [.sequential ⟨.circle, .particleId, .same⟩
        [.ofParameter "Count" "size"]]).compile Registry.default).outcome = .ok ring ∧
      compiled.source = lattice.source ++ "\n" ++ ring.source ∧
      (Text.lines compiled.source).length = 5 := by
  obtain ⟨compiled, hc, hforms, hlength, htargets⟩ : ∃ compiled,
      (latticeThenRing.compile Registry.default).outcome = .ok compiled ∧
        compiled.blocks.map (·.form?) = [some ⟨.threeDimensional, false⟩, some ⟨.circle, true⟩] ∧
        compiled.blocks.length = 2 ∧ compiled.blocks.countP (·.hasTarget) = 1 :=
    ⟨_, rfl, rfl, rfl, rfl⟩
  obtain ⟨otherCompiled, hoc, hotherForms⟩ : ∃ otherCompiled,
      (latticeThenNextRing.compile Registry.default).outcome = .ok otherCompiled ∧
        otherCompiled.blocks.map (·.form?) = [some ⟨.threeDimensional, false⟩, some ⟨.circle, true⟩] :=
    ⟨_, rfl, rfl⟩
  obtain ⟨-, hsame, hsplit, hcount⟩ := source_tells_forms hc hoc
  obtain ⟨lattice, ring, hlattice, hring, hsource⟩ := hsplit
    [.sequential ⟨.threeDimensional, .custom, .none⟩ [.ofParameter "Index" "step"]]
    [.sequential ⟨.circle, .particleId, .same⟩ [.ofParameter "Count" "size"]]
    (List.cons_ne_nil _ _) (List.cons_ne_nil _ _) rfl
  rw [hlength, htargets] at hcount
  exact ⟨compiled, otherCompiled, lattice, ring, hc, hoc, hforms, hsame.mpr (hforms.trans hotherForms.symm),
    hlattice, hring, hsource, hcount⟩

end Context
end EffectGraph
