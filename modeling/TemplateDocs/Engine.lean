import TemplateDocs.Metadata.Basic

/-!
# Template engines

An engine compiles a source and renders it with locals. Asked for more detail, it may explain a
failure with an excerpt of the source.
-/
namespace TemplateDocs

structure EngineError where
  message : Text
  excerpt : Option Text := none
  deriving DecidableEq, Repr

structure Engine where
  /-- Compiles a source under a file name; the flag asks for detailed errors. -/
  compile : Text → Text → Bool → Except EngineError (Locals → Except EngineError Text)
  /-- Whether rendering this source asks to stop the run. -/
  interrupts : Text → Bool := fun _ => false

namespace Engine

def attempt (e : Engine) (source file : Text) (locals : Locals) (debug : Bool) :
    Except EngineError Text :=
  match e.compile source file debug with
  | .error err => .error err
  | .ok template => template locals

/-- Compiles and renders. A failure is tried again with detailed errors, only for the sake of the
error: the output of the second attempt is not used. -/
def render (e : Engine) (source file : Text) (locals : Locals) : Except EngineError Text :=
  match e.attempt source file locals false with
  | .ok output => .ok output
  | .error plain =>
    match e.attempt source file locals true with
    | .ok _ => .error plain
    | .error detailed => .error ⟨detailed.message, detailed.excerpt <|> plain.excerpt⟩

/-- The debug flags of the compilations that `render` makes. -/
def attempts (e : Engine) (source file : Text) (locals : Locals) : List Bool :=
  match e.attempt source file locals false with
  | .ok _ => [false]
  | .error _ => [false, true]

end Engine
end TemplateDocs
