import TemplateDocs.Engine
import TemplateDocs.Jinja.Eval
import TemplateDocs.Jinja.Reader

/-!
# The Jinja engine

Templates whose names end like markup have their values escaped.
-/
namespace TemplateDocs.Jinja

/-- The part of a file name after its last dot; a template suffix does not count. -/
def extension (file : Text) : Text :=
  let name := if Text.endsWith ".j2".toList file then file.take (file.length - 3) else file
  (name.reverse.takeWhile (· ≠ '.')).reverse

def escapes (file : Text) : Bool :=
  ["html", "htm", "xml"].any fun markup => extension file = markup.toList

/-- The line of a fault with its number. -/
def excerpt (source : Text) (f : Fault) : Text :=
  Text.ofNat f.line ++ " | ".toList ++ ((Text.split '\n' source)[f.line - 1]?).getD []

def engineError (source file : Text) (debug : Bool) (f : Fault) : EngineError :=
  ⟨f.message file, if debug then some (excerpt source f) else none⟩

def render (file : Text) (body : List Statement) (locals : Locals) : Except Fault Text :=
  (runAll (escapes file) (ofJsonFields locals) body).map Prod.snd

def engine : Engine where
  compile source file debug :=
    match parse source with
    | .error f => .error (engineError source file debug f)
    | .ok body => .ok fun locals =>
      match render file body locals with
      | .error f => .error (engineError source file debug f)
      | .ok output => .ok output

end TemplateDocs.Jinja
