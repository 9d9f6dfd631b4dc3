import CabalManifest.Defaults.Resolver
import CabalManifest.Discovery
import CabalManifest.Merge

/-!
# The context of reading a manifest

What reading a manifest needs besides its value: where the value stands, and two services, one that
finds the files of a pattern and one that finds the documents of references. The services keep a
state of their own, of which reading knows nothing; so the laws of reading hold for any of them.

Warnings are collected in the order in which they arise, and kept when reading fails.
-/

namespace CabalManifest

/-- What reading a manifest asks of the outside. -/
structure Services (σ : Type) where
  /-- The files that match a pattern. -/
  glob : String → σ → Except Failure (List String)
  /-- The document that a reference names, seen from a directory, given the chain of documents that
  leads to it. Without this service, no defaults can be used. -/
  resolve? : Option (Reference → List String → PosixPath → σ → Except Failure Document × σ)

/-- The document that is being read. -/
structure Context (σ : Type) where
  services : Services σ
  /-- The name of the document in messages. -/
  source : String
  /-- Where its references to files start. -/
  directory : PosixPath
  /-- The chain of documents that led to it, outermost first. -/
  visited : List String

/-- What reading has done so far. -/
structure Progress (σ : Type) where
  warnings : List Warning
  state : σ

/-- A computation that reads a manifest. -/
abbrev Decode (σ : Type) := ExceptT Failure (StateM (Progress σ))

namespace Decode

variable {σ : Type}

/-- Warns of something. -/
def warn (warning : Warning) : Decode σ Unit :=
  modify fun s ↦ { s with warnings := s.warnings ++ [warning] }

/-- Warns of several things. -/
def warnAll (warnings : List Warning) : Decode σ Unit :=
  modify fun s ↦ { s with warnings := s.warnings ++ warnings }

/-- Goes on with a result, or stops at a failure. -/
def ofExcept {α : Type} : Except Failure α → Decode σ α
  | .ok result => return result
  | .error failure => throw failure

end Decode

namespace Context

variable {σ : Type}

/-- The failure of a value at a place. -/
def fault {α : Type} (context : Context σ) (place : Place) (fault : Fault) : Except Failure α :=
  .error (.invalid context.source place fault)

/-- The failure of a value that has not the shape it should have. -/
def mismatch {α : Type} (context : Context σ) (place : Place) (what : String) (value : Value) :
    Except Failure α :=
  context.fault place (.expected what value.shape)

/-- The context of a document that the current one refers to. -/
def enter (context : Context σ) (document : Document) : Context σ :=
  { context with
    source := document.source
    directory := document.directory
    visited := context.visited ++ [document.canonical] }

/-- The files that match a pattern. -/
def glob (context : Context σ) (pattern : String) : Decode σ (List String) :=
  do Decode.ofExcept (context.services.glob pattern (← get).state)

/-- The document that a reference names. -/
def resolve (context : Context σ) (reference : Reference) : Decode σ Document := do
  match context.services.resolve? with
  | none => throw .noResolver
  | some resolve =>
    let progress ← get
    let (document, state) := resolve reference context.visited context.directory progress.state
    set { progress with state := state }
    Decode.ofExcept document

end Context

end CabalManifest
