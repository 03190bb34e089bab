import EffectGraph.Text.Quoted

/-!
# `Compile.Notice` — what compilation has to say on the way

Compilation reports what it does as a list of notices beside its outcome, and the notices made before
a failure are kept. `Noted ε α` is that pair; it is a monad, and its outcome alone composes like
`Except ε α`.
-/

namespace EffectGraph

/-- A report of compilation. -/
inductive Notice where
  /-- A slot names no declared input. -/
  | ignoredSlot (slot : String)
  /-- A block was compiled. -/
  | compiledBlock (block : String) (inputs parameters : Nat)
  /-- A disabled block was passed over. -/
  | skippedBlock (path : String)
  /-- A context was compiled. -/
  | compiledContext (context : String) (blocks attributes : Nat)
  /-- A block replaced another one of the same identity. -/
  | replacedBlock (block : String)
deriving DecidableEq, Repr

namespace Notice

/-- Whether a notice is a warning. -/
def isWarning : Notice → Bool
  | .replacedBlock _ => true
  | _ => false

/-- The notice in words. -/
def message : Notice → String
  | .ignoredSlot _ => "ignoring slot without declared input"
  | .compiledBlock _ _ _ => "compiled block"
  | .skippedBlock _ => "skipping disabled block"
  | .compiledContext _ _ _ => "compiled context"
  | .replacedBlock _ => "block registered twice, replacing"

/-- The particulars of a notice, by name. -/
def details : Notice → List (String × String)
  | .ignoredSlot slot => [("slot", slot)]
  | .compiledBlock block inputs parameters =>
    [("block", block), ("inputs", toString inputs), ("parameters", toString parameters)]
  | .skippedBlock path => [("path", path)]
  | .compiledContext context blocks attributes =>
    [("context", context), ("blocks", toString blocks), ("attributes", toString attributes)]
  | .replacedBlock block => [("block", block)]

end Notice

/-- An outcome together with the notices made on the way to it. -/
structure Noted (ε α : Type) where
  notices : List Notice
  outcome : Except ε α

namespace Noted

variable {ε ε' α β : Type}

/-- An outcome without notices. -/
def ofExcept (outcome : Except ε α) : Noted ε α := ⟨[], outcome⟩

/-- One notice. -/
def note (notice : Notice) : Noted ε Unit := ⟨[notice], .ok ()⟩

/-- Goes on with a success; the notices add up. -/
def andThen (first : Noted ε α) (next : α → Noted ε β) : Noted ε β :=
  match first.outcome with
  | .error e => ⟨first.notices, .error e⟩
  | .ok a => ⟨first.notices ++ (next a).notices, (next a).outcome⟩

instance : Monad (Noted ε) where
  pure a := ofExcept (.ok a)
  bind := andThen

instance : MonadExcept ε (Noted ε) where
  throw e := ofExcept (.error e)
  tryCatch first handler :=
    match first.outcome with
    | .error e => ⟨first.notices ++ (handler e).notices, (handler e).outcome⟩
    | .ok _ => first

/-- The same with another kind of failure. -/
def mapError (f : ε → ε') (noted : Noted ε α) : Noted ε' α :=
  ⟨noted.notices, noted.outcome.mapError f⟩

@[simp] theorem outcome_pure (a : α) : (pure a : Noted ε α).outcome = .ok a := rfl

@[simp] theorem outcome_ofExcept (outcome : Except ε α) : (ofExcept outcome).outcome = outcome := rfl

@[simp] theorem outcome_note (notice : Notice) : (note notice : Noted ε Unit).outcome = .ok () := rfl

@[simp] theorem outcome_mapError (f : ε → ε') (noted : Noted ε α) :
    (noted.mapError f).outcome = noted.outcome.mapError f := rfl

/-- The outcome composes without regard to the notices. -/
@[simp] theorem outcome_bind (first : Noted ε α) (next : α → Noted ε β) :
    (first >>= next).outcome = first.outcome >>= fun a => (next a).outcome := by
  show (andThen first next).outcome = _
  cases h : first.outcome with
  | error e => simp [andThen, h]; rfl
  | ok a => simp [andThen, h]; rfl

end Noted
end EffectGraph
