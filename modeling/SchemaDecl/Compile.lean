import SchemaDecl.Declaration
import SchemaDecl.Reference

/-!
# Compilation

A compilation gives a file for every entity, in their order, and the shared files of the mode.  `Config.trace` is the
compilation with its events and `Config.compile` its result.
-/

namespace SchemaDecl

namespace Scope

/-- One entity, resolved and rendered. -/
def renderEntity (scope : Scope) (e : Entity) : Traced Rendered := do
  let imports ← scope.resolve e
  Traced.record (.compiled e.name e.fields.length imports.length)
  return e.render scope.config imports

/-- Entities, resolved and rendered in their order. -/
def renderAll (scope : Scope) : List Entity → Traced (List Rendered)
  | [] => pure []
  | e :: es => do
    let r ← scope.renderEntity e
    let rs ← renderAll scope es
    return r :: rs

end Scope

namespace Config

/-- Repeated names stop a compilation unless they are allowed. -/
def checkNames (config : Config) (entities : List Entity) : Traced Unit :=
  match firstDuplicate? entities with
  | none => pure ()
  | some name =>
    if config.allowDuplicateNames then Traced.record (.repeated name) else Traced.ofExcept (.error (.duplicate name))

/-- The output that rendered entities make; of a repeated name the later path counts. -/
def assemble (config : Config) (rendered : List Rendered) : Output where
  files := rendered.map Rendered.file
  map := PathMap.ofList (rendered.map fun r => (r.name, r.logicalPath))
  support := config.mode.support config

/-- A compilation with its events. -/
def trace (config : Config) (entities : List Entity) (tables : PathMap) : Traced Output := do
  config.checkNames entities
  let rendered ← Scope.renderAll ⟨entities, tables, config⟩ entities
  let output := config.assemble rendered
  Traced.record (.finished output.files.length config.mode output.support.length)
  return output

def compile (config : Config) (entities : List Entity) (tables : PathMap) : Except CompileError Output :=
  (config.trace entities tables).result

def compileDocument (config : Config) (d : Document) : Except CompileError Output :=
  config.compile d.entities d.tables

def compileEntity (config : Config) (e : Entity) (entities : List Entity) (tables : PathMap) :
    Except CompileError Rendered := do
  let imports ← (Scope.resolve ⟨entities, tables, config⟩ e).result
  return e.render config imports

end Config

/-- Compiles entities to classes with the default settings. -/
def compileClasses (entities : List Entity) (tables : PathMap) : Except CompileError Output :=
  ({ mode := .classes } : Config).compile entities tables

/-- Compiles entities to interfaces with the default settings. -/
def compileInterfaces (entities : List Entity) (tables : PathMap) : Except CompileError Output :=
  ({ mode := .interfaces } : Config).compile entities tables

end SchemaDecl
