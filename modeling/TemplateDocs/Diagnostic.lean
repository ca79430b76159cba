import TemplateDocs.Metadata.Decode
import TemplateDocs.Metadata.Record
import TemplateDocs.Render

/-!
# Diagnostics

Problems that do not end a run. Each names the file and, if it is about one, the block.
-/
namespace TemplateDocs

inductive Problem where
  /-- A name that an earlier block of the run has; both blocks are kept. -/
  | duplicateName (name firstFile : Text)
  /-- The block is skipped. -/
  | metadata (error : Metadata.Error)
  /-- One example failed; `metadata` is the record of the block. -/
  | render (failure : RenderFailure) (metadata : Text)
  | nestingTooDeep (label : Text)
  /-- The parameter is left out. -/
  | parameter (rejected : RejectedParameter)
  /-- The block is captured as if nothing was said. -/
  | capture (value : Text)
  /-- The file is skipped. -/
  | fileTooLarge (size limit : Nat)
  deriving DecidableEq, Repr

def Problem.message : Problem → Text
  | .duplicateName name firstFile =>
    "duplicate doc block name `".toList ++ name ++ "` (first defined in ".toList ++ firstFile ++ [')']
  | .metadata error => error.message
  | .render failure _ =>
    "failed to render `".toList ++ failure.label ++ "`: ".toList ++ failure.error.message
  | .nestingTooDeep label =>
    "example `".toList ++ label ++ "` is nested more than one level deep and was skipped".toList
  | .parameter rejected =>
    "skipped invalid `".toList ++ rejected.key ++ "` entry `".toList ++ rejected.rejection.text
      ++ "`: ".toList ++ rejected.rejection.fault.message
  | .capture value =>
    "invalid capture `".toList ++ value
      ++ "`, expected `all`, `section` or a positive number".toList
  | .fileTooLarge size limit =>
    "file skipped: ".toList ++ Text.ofNat size ++ " bytes exceeds the ".toList ++ Text.ofNat limit
      ++ " byte limit".toList

structure Diagnostic where
  file : Text
  /-- The name of the block. -/
  block : Option Text
  /-- The line of the marker, or zero if the whole file is meant. -/
  line : Nat
  problem : Problem
  deriving DecidableEq, Repr

namespace Diagnostic

def message (d : Diagnostic) : Text := d.problem.message

def location (d : Diagnostic) : Text :=
  if d.line = 0 then d.file else d.file ++ ':' :: Text.ofNat d.line

end Diagnostic
end TemplateDocs
