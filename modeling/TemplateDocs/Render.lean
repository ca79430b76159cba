import TemplateDocs.Engine
import TemplateDocs.Variant

/-!
# Rendering a block

Each variant is rendered on its own, so one failure leaves the others as they are.
-/
namespace TemplateDocs

structure RenderFailure where
  label : Text
  error : EngineError
  deriving DecidableEq, Repr

/-- An override object with the output of its variants. -/
structure Fragment where
  spec : Override
  output : Text

/-- The outcome of one variant. -/
structure Attempt where
  variant : Variant
  outcome : Except EngineError Text
  /-- Debug flags of the compilations. -/
  compiles : List Bool

structure BlockRender where
  /-- The outputs of all variants; nothing if none rendered or the block is suppressed. -/
  output : Option Text
  /-- The fragments with at least one variant that rendered. -/
  fragments : List Fragment
  failures : List RenderFailure

namespace Assembly

/-- The variants that are rendered: a suppressed block renders its fragments only. -/
def wanted (a : Assembly) : List Variant :=
  a.variants.filter fun v => !(a.suppressed && v.fragment.isNone)

/-- Renders the wanted variants; a variant's locals lie over the global ones. -/
def attempts (e : Engine) (globals : Locals) (file : Text) (a : Assembly) : List Attempt :=
  a.wanted.map fun v =>
    let locals := Json.Fields.overlay globals v.locals
    ⟨v, e.render v.source file locals, e.attempts v.source file locals⟩

end Assembly

namespace Attempt

def output? (a : Attempt) : Option Text := a.outcome.toOption

def failure? (a : Attempt) : Option RenderFailure :=
  match a.outcome with
  | .ok _ => none
  | .error e => some ⟨a.variant.label, e⟩

/-- The outputs of the attempts for one fragment. -/
def outputsOf (index : Nat) (attempts : List Attempt) : List Text :=
  (attempts.filter fun a => a.variant.fragment = some index).filterMap output?

end Attempt

namespace BlockRender

def fragmentsOf (attempts : List Attempt) (fragments : List Override) : List Fragment :=
  fragments.zipIdx.filterMap fun (spec, index) =>
    match Attempt.outputsOf index attempts with
    | [] => none
    | outputs => some ⟨spec, outputs.flatten⟩

def ofAttempts (a : Assembly) (attempts : List Attempt) : BlockRender :=
  let outputs := attempts.filterMap Attempt.output?
  {
    output := if a.suppressed || outputs.isEmpty then none else some outputs.flatten
    fragments := fragmentsOf attempts a.fragments
    failures := attempts.filterMap Attempt.failure? }

end BlockRender

def Assembly.render (e : Engine) (globals : Locals) (file : Text) (a : Assembly) : BlockRender :=
  BlockRender.ofAttempts a (a.attempts e globals file)

end TemplateDocs
