/-
  Module/Directory: the directory of an import path.

  A path is looked for in the main module, among the vendored packages, in the
  required module with the longest fitting path, and in the standard library, in
  this order.
-/
import StructCopy.Files.Source
import StructCopy.Go.Platform
import StructCopy.Module.ImportPath
import StructCopy.Module.ModFile
import StructCopy.Module.Package

set_option autoImplicit false

namespace StructCopy.Module

open StructCopy.Files (FileSource)

/-- The platform of a build and the directories of the tool chain. -/
structure BuildEnv where
  platform : Go.Platform
  /-- where the sources of required modules are kept -/
  moduleCache : Option Files.Path
  /-- where the standard library is kept, below `src` -/
  goroot : Option Files.Path
  deriving DecidableEq, Repr

/-- A module: its root directory and what its `go.mod` declares. -/
structure GoModule where
  root : Files.Path
  file : ModFile
  deriving DecidableEq, Repr

namespace GoModule

/-- The module with the given root. -/
def discover (source : FileSource) (root : Files.Path) : Except LoadError GoModule :=
  let path := root.joinText "go.mod"
  match source.read path with
  | .error cause => .error (.unreadable path cause)
  | .ok text =>
    match ModFile.ofText? text with
    | some file => .ok ⟨root, file⟩
    | none => .error (.noModuleDirective root)

/-- A directory below another one; nothing to add leaves the directory itself. -/
def below (dir : Files.Path) (rest : String) : Files.Path :=
  if rest.isEmpty then dir else dir.joinText rest

/-- Of two requirements that fit, the one with the longer path; the later one if they are equally
long. -/
def longer : Option (Requirement × String) → Requirement × String → Requirement × String
  | none, r => r
  | some best, r => if r.1.path.length < best.1.path.length then best else r

/-- The required module with the longest path that a path lies in, with the part of the path
behind it. -/
def requirementFor? (m : GoModule) (path : String) : Option (Requirement × String) :=
  (m.file.requires.filterMap fun r => (within? path r.path).map fun rest => (r, rest)).foldl
    (fun best r => some (longer best r)) none

/-- The directory of a module version in the module cache. -/
def cached? (env : BuildEnv) (path version : String) : Option Files.Path :=
  env.moduleCache.map fun cache => cache.joinText (cacheName path version)

/-- The directory of a required module: its replacement if there is one. -/
def requirementDir? (m : GoModule) (env : BuildEnv) (r : Requirement) : Option Files.Path :=
  match m.file.replaces.find? fun replacement => replacement.path == r.path with
  | some ⟨_, target, none⟩ => some (m.root.joinText target)
  | some ⟨_, target, some version⟩ => cached? env target version
  | none => cached? env r.path r.version

/-- The directory that a path has in a required module. -/
def dependencyDir? (m : GoModule) (env : BuildEnv) (path : String) : Option Files.Path := do
  let (r, rest) ← m.requirementFor? path
  let dir ← m.requirementDir? env r
  return below dir rest

/-- The directory that a path has in the standard library. -/
def standardDir? (env : BuildEnv) (path : String) : Option Files.Path :=
  if isStandard path then env.goroot.map fun goroot => (goroot.joinText "src").joinText path
  else none

/-- The directories that a path may have, whether they are there or not. -/
def candidateDirs (m : GoModule) (env : BuildEnv) (path : String) : List Files.Path :=
  ((within? path m.file.path).map fun rest => below m.root rest).toList ++
    [(m.root.joinText "vendor").joinText path] ++ (m.dependencyDir? env path).toList ++
    (standardDir? env path).toList

/-- The directory of the package with an import path. -/
def packageDir? (m : GoModule) (source : FileSource) (env : BuildEnv) (path : String) :
    Option Files.Path :=
  match within? path m.file.path with
  | some rest => some (below m.root rest)
  | none =>
    let vendored := (m.root.joinText "vendor").joinText path
    if source.isDirectory vendored then some vendored
    else
      ((m.dependencyDir? env path).filter source.isDirectory).or
        ((standardDir? env path).filter source.isDirectory)

end GoModule

end StructCopy.Module
