/-
  CommandLine/Variables: the build that environment variables describe.

  A variable whose value is blank counts as unset, except those that lead to the home
  directory: they are unset only if they are empty.
-/
import StructCopy.Module.Directory

set_option autoImplicit false

namespace StructCopy.CommandLine

open StructCopy.Module (BuildEnv)

/-- The values of environment variables. -/
abbrev Variables : Type :=
  String → Option String

/-- The names of the variables that matter. -/
def variableNames : List String :=
  ["GOOS", "GOARCH", "CGO_ENABLED", "GOMODCACHE", "GOPATH", "GOROOT", "HOME", "USERPROFILE"]

/-- A variable that is set and not blank. -/
def nonBlank? (vars : Variables) (name : String) : Option String :=
  (vars name).filter (!Text.isBlankString ·)

/-- The home directory. An empty first variable hides the second one. -/
def home? (vars : Variables) : Option Files.Path :=
  (((vars "HOME").or (vars "USERPROFILE")).filter (!String.isEmpty ·)).map Files.Path.mk

/-- The first entry of a list of directories. -/
def firstDirectory (list : String) : Files.Path :=
  ⟨String.ofList (list.toList.takeWhile (· != ':'))⟩

/-- The directory below which the language keeps what it downloads. -/
def workspace? (vars : Variables) : Option Files.Path :=
  match (vars "GOPATH").filter (!String.isEmpty ·) with
  | some list => some (firstDirectory list)
  | none => (home? vars).map (·.joinText "go")

/-- The directory of downloaded modules. -/
def moduleCache? (vars : Variables) : Option Files.Path :=
  match nonBlank? vars "GOMODCACHE" with
  | some dir => some ⟨dir⟩
  | none => (workspace? vars).map fun dir => (dir.joinText "pkg").joinText "mod"

/-- The build that the variables describe: for linux on amd64 with code in C, unless they say
otherwise. -/
def buildEnv (vars : Variables) : BuildEnv :=
  ⟨⟨(nonBlank? vars "GOOS").getD "linux", (nonBlank? vars "GOARCH").getD "amd64",
      nonBlank? vars "CGO_ENABLED" != some "0"⟩,
    moduleCache? vars, (nonBlank? vars "GOROOT").map Files.Path.mk⟩

end StructCopy.CommandLine
