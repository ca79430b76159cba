import TemplateDocs.Error
import TemplateDocs.Json.Reader
import TemplateDocs.Toml.Reader
import TemplateDocs.Yaml.Reader

/-!
# Data files

A data file is JSON, TOML or YAML; whatever it is, its content is one JSON value.
-/
namespace TemplateDocs.DataFile

inductive Format where
  | json
  | toml
  | yaml
  deriving DecidableEq, Repr

/-- The format with a given name, in lower case. -/
def Format.ofName? (name : Text) : Option Format :=
  if name = "json".toList then some .json
  else if name = "toml".toList then some .toml
  else if name = "yaml".toList ∨ name = "yml".toList then some .yaml
  else none

def malformed (path : Text) : Error := .locals path .malformed

/-- The entries of a TOML table as JSON; `path` is where they come from. -/
def fieldsOfToml (path : Text) (entries : Toml.Entries) : Except Error Json.Fields :=
  (Toml.entriesToJson entries).mapError (.unwritableNumber path)

def Format.parse (format : Format) (path content : Text) : Except Error Json.Value :=
  match format with
  | .json => (Json.parse? content).elim (.error (malformed path)) .ok
  | .yaml => (Yaml.parse? content).elim (.error (malformed path)) .ok
  | .toml =>
    match Toml.parse? content with
    | none => .error (malformed path)
    | some entries => (fieldsOfToml path entries).map .object

/-- The value of a data file; `path` is how errors name it. -/
def parse (content format path : Text) : Except Error Json.Value :=
  match Format.ofName? format with
  | some f => f.parse path content
  | none => .error (.unsupportedFormat format)

end TemplateDocs.DataFile
