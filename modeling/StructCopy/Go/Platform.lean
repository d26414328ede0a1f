/-
  Go/Platform: the platform of a build, and the tags it satisfies.
-/
import StructCopy.Text.Split

set_option autoImplicit false

namespace StructCopy.Go

/-- The operating systems that a file name may be bound to. -/
def operatingSystems : List String := [
  "aix", "android", "darwin", "dragonfly", "freebsd", "hurd", "illumos", "ios", "js", "linux",
  "nacl", "netbsd", "openbsd", "plan9", "solaris", "wasip1", "windows", "zos"
]

/-- The architectures that a file name may be bound to. -/
def architectures : List String := [
  "386", "amd64", "amd64p32", "arm", "armbe", "arm64", "arm64be", "loong64", "mips", "mipsle",
  "mips64", "mips64le", "mips64p32", "mips64p32le", "ppc", "ppc64", "ppc64le", "riscv", "riscv64",
  "s390", "s390x", "sparc", "sparc64", "wasm"
]

/-- The operating systems of the unix family. -/
def unixSystems : List String := [
  "aix", "android", "darwin", "dragonfly", "freebsd", "hurd", "illumos", "ios", "linux", "netbsd",
  "openbsd", "solaris"
]

/-- A target platform. -/
structure Platform where
  os : String
  arch : String
  /-- code in C may take part in the build -/
  cgo : Bool
  deriving DecidableEq, Repr

/-- The tag of a language release, `go1.` and digits. Every release counts as reached. -/
def isReleaseTag (tag : String) : Bool :=
  match Text.after? "go1.".toList tag.toList with
  | some digits => !digits.isEmpty && digits.all Char.isDigit
  | none => false

namespace Platform

/-- Whether a tag holds on the platform. Some systems count as another one too. -/
def satisfies (p : Platform) (tag : String) : Bool :=
  if tag = p.os ∨ tag = p.arch then true
  else if tag = "unix" then unixSystems.contains p.os
  else if tag = "linux" then p.os == "android"
  else if tag = "solaris" then p.os == "illumos"
  else if tag = "darwin" then p.os == "ios"
  else if tag = "gc" then true
  else if tag = "cgo" then p.cgo
  else isReleaseTag tag

/-- Whether the name of a file leaves it in the build: what follows an underscore at its end may
name a system, an architecture, or one after the other. -/
def allowsName (p : Platform) (fileName : String) : Bool :=
  let stem := (Text.before? ".go".toList fileName.toList).getD fileName.toList
  let endings := (Text.splitAt '_' stem).tail.map String.ofList
  match endings.reverse with
  | arch :: os :: _ =>
    if operatingSystems.contains os && architectures.contains arch then
      p.satisfies os && p.satisfies arch
    else allowsEnding arch
  | [ending] => allowsEnding ending
  | [] => true
where
  /-- A single ending binds the file if it names a system or an architecture. -/
  allowsEnding (ending : String) : Bool :=
    if operatingSystems.contains ending || architectures.contains ending then p.satisfies ending
    else true

end Platform

end StructCopy.Go
