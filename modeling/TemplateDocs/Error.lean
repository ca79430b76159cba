import TemplateDocs.Files.Fault
import TemplateDocs.Generate

/-!
# Errors that end a run

Each has a message, a code and sometimes a hint on what to do.
-/
namespace TemplateDocs

/-- Why a locals file cannot be used. -/
inductive LocalsFault where
  | unreadable (fault : Files.Fault)
  | malformed
  | notMapping
  deriving DecidableEq, Repr

def LocalsFault.message : LocalsFault → Text
  | .unreadable fault => fault.message
  | .malformed => "the content is malformed".toList
  | .notMapping => "expected a mapping at the top level".toList

inductive Error where
  | file (fault : Files.Fault)
  | malformedConfig
  | locals (path : Text) (fault : LocalsFault)
  | unsupportedFormat (format : Text)
  /-- A number without a JSON form. -/
  | unwritableNumber (path value : Text)
  | badPattern (pattern : Text)
  | missingName (block : MissingName)
  | metadata (error : Metadata.Error)
  | parameter (rejection : Parameter.Rejection)
  /-- The workers of a run could not be started. -/
  | threadPool (reason : Text)
  | cancelled
  deriving DecidableEq, Repr

namespace Error

def message : Error → Text
  | .file fault => fault.message
  | .malformedConfig => "failed to parse config file".toList
  | .locals path fault =>
    "failed to load locals file `".toList ++ path ++ "`: ".toList ++ fault.message
  | .unsupportedFormat format => "unsupported locals file format: `".toList ++ format ++ ['`']
  | .unwritableNumber path value =>
    "unconvertible float value in `".toList ++ path ++ "`: ".toList ++ value
  | .badPattern pattern => "invalid glob pattern `".toList ++ pattern ++ ['`']
  | .missingName block => block.message
  | .metadata error => error.message
  | .parameter rejection => rejection.message
  | .threadPool reason => "failed to start worker threads: ".toList ++ reason
  | .cancelled => "generation run was cancelled".toList

def code : Error → Text
  | .file _ => "pugdoc::io_error".toList
  | .malformedConfig => "pugdoc::config_parse".toList
  | .locals _ _ => "pugdoc::locals_file".toList
  | .unsupportedFormat _ => "pugdoc::unsupported_format".toList
  | .unwritableNumber _ _ => "pugdoc::unconvertible_float".toList
  | .badPattern _ => "pugdoc::invalid_pattern".toList
  | .missingName _ => "pugdoc::missing_name".toList
  | .metadata _ => "pugdoc::metadata_parse".toList
  | .parameter _ => "pugdoc::invalid_parameter".toList
  | .threadPool _ => "pugdoc::thread_pool".toList
  | .cancelled => "pugdoc::cancelled".toList

def help? : Error → Option Text
  | .malformedConfig =>
    some ("check that pugdoc.toml is valid TOML with optional [locals], [exclude] and "
      ++ "[engine] sections").toList
  | .unsupportedFormat _ => some "supported formats: json, toml, yaml, yml".toList
  | .unwritableNumber _ _ => some "NaN and Infinity are not valid JSON numbers".toList
  | .missingName _ => some "add a `name:` entry to the doc block's metadata".toList
  | .parameter _ =>
    some "parameters follow the form `\x7bType\x7d name - description`".toList
  | .threadPool _ => some "lower `jobs` in pugdoc.toml or pass a smaller `--jobs`".toList
  | .file _ | .locals _ _ | .badPattern _ | .metadata _ | .cancelled => none

end Error
end TemplateDocs
