import SpringLint.FileSystem
import SpringLint.Problem
import SpringLint.Syntax.Edit

/-! Errors of the analysis, the marker store and the fixes. -/

namespace SpringLint

inductive Error where
  | read (path : String) (fault : FileFault)
  | write (path : String) (fault : FileFault)
  | parse (path : String)
  | corruptStore (path : String)
  | unknownProblem (id : String)
  | fixerMismatch (fixer : String) (problem : Problem)
  | invalidEdit (reason : EditError)
  | staleMarker (path : String)
  | config (reason : String)
  deriving DecidableEq, Repr

namespace Error

def message : Error → String
  | .read path fault => "failed to read " ++ path ++ ": " ++ fault.message
  | .write path fault => "failed to write " ++ path ++ ": " ++ fault.message
  | .parse path => "failed to parse " ++ path
  | .corruptStore path => "marker store " ++ path ++ " is corrupt"
  | .unknownProblem id => "no problem with id " ++ Text.quoted id ++ " exists"
  | .fixerMismatch fixer problem => "fixer '" ++ fixer ++ "' does not resolve " ++ problem.title
  | .invalidEdit reason => "invalid edit: " ++ reason.message
  | .staleMarker path => "marker no longer matches " ++ path
  | .config reason => "invalid configuration: " ++ reason

end Error

inductive Halt where
  | error (error : Error)
  /-- The operation cannot be carried out at all: the configured source roots contradict the place
  of a source, or the spans of a tree do not nest. -/
  | crash
  deriving DecidableEq, Repr

end SpringLint
