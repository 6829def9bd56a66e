-- The `globals` query and the lookups built on it. `globals` compiles and loads every module
-- of `module_states` and panics when one of them fails to load, so a single failing module
-- makes `global`, and `find_var`, `find_type` and `get_metadata` with it, panic on every name.
import Mathlib.Data.List.Basic

namespace embed_lang.query

/-! ## What a global is -/

/-- `ArcType`, in the forms `get_binding` reads: an alias with the type it stands for, the rows of
a record type and of a variant type, each field or constructor with its type, and any other
type. -/
inductive Typ
  | aliased (name : String) (typ : Typ)
  | record (fields : List (String × Typ))
  | variant (ctors : List (String × Typ))
  | other (name : String) (args : List Typ)

/-- A value as `get_binding` sees it through `ValueRef`: `Data`, with its tag and its fields (none
for the bare tag of a nullary constructor), or a value of another kind. -/
inductive Value
  | data (tag : Nat) (fields : List Value)
  | other (kind : String)

instance : Inhabited Value := ⟨.other ""⟩

/-- `Metadata`, with `module`, the metadata of each field. -/
inductive Metadata
  | mk (module : List (String × Metadata))

/-- The metadata of each field. -/
def Metadata.module : Metadata → List (String × Metadata)
  | .mk module => module

/-- `vm::Global`. -/
structure Global where
  id : String
  typ : Typ
  metadata : Metadata
  value : Value

/-! ## The queries -/

/-- What the loader, the compiler and the VM do for the queries, which this layer only calls:
`get_module_source(module, filename)`, `typecheck_expected`, `compile`, and `load_script` on a
compiled module, which gives the `id`, `typ`, `metadata` and `value` of a global. -/
structure Pipeline (ε Text Typed Compiled : Type) where
  getModuleSource : String → String → Except ε Text
  typecheckExpected : String → Text → Except ε Typed
  compile : String → Text → Typed → Except ε Compiled
  loadScript : String → Compiled → Except ε Global

section

variable {ε Text Typed Compiled : Type} (p : Pipeline ε Text Typed Compiled)

/-- `module_text`: the source of `module`, read from the file its dotted name gives. -/
def moduleText (module : String) : Except ε Text :=
  p.getModuleSource module (module.replace "." "/" ++ ".glu")

/-- `typechecked_module(module, None)`. -/
def typecheckedModule (module : String) : Except ε Typed := do
  let text ← moduleText p module
  p.typecheckExpected module text

/-- `compiled_module`. -/
def compiledModule (module : String) : Except ε Compiled := do
  let text ← moduleText p module
  let value ← typecheckedModule p module
  p.compile module text value

/-- `Executable::load_script` on what `compiled_module` returned: its error, or the module
loaded. -/
def loadScript (module : String) (compileValue : Except ε Compiled) : Except ε Global :=
  compileValue.bind (p.loadScript module)

/-- The message of the panic in `globals`. -/
def scriptLoadingFailed : String := "ICE: Script loading failed unexpectedly"

/-- `globals`: the global of every module of `module_states`, in the order of its keys, each
under the name of its module. The source collects the `Global`s alone into its
`FnvMap<String, Global>`; the key is this model's, the name that `global` looks up. A panic is an
`error` with its message. -/
def globals (moduleStates : List String) : Except String (List (String × Global)) :=
  moduleStates.mapM fun name =>
    match loadScript p name (compiledModule p name) with
    | .ok g => .ok (name, g)
    | .error _ => .error scriptLoadingFailed

/-- `global`. -/
def global (moduleStates : List String) (name : String) : Except String (Option Global) :=
  (globals p moduleStates).map (·.lookup name)

/-- `CompilerEnv::find_var`: the id and type of a global. -/
def CompilerEnv.findVar (moduleStates : List String) (id : String) :
    Except String (Option (String × Typ)) :=
  (global p moduleStates id).map (·.map fun g => (g.id, g.typ))

/-- `TypeEnv::find_type`. -/
def TypeEnv.findType (moduleStates : List String) (id : String) : Except String (Option Typ) :=
  (global p moduleStates id).map (·.map (·.typ))

/-- `MetadataEnv::get_metadata`. -/
def MetadataEnv.getMetadata (moduleStates : List String) (id : String) :
    Except String (Option Metadata) :=
  (global p moduleStates id).map (·.map (·.metadata))

end

/-- Module `a` has no source, module `b` compiles and loads: `global("b")`, and each lookup of
`b` through it, panics. -/
theorem global_panics_on_failing_neighbour :
    let p : Pipeline String String Unit Unit :=
      ⟨fun module _ => if module = "b" then .ok "1" else .error "no such module",
        fun _ _ => .ok (), fun _ _ _ => .ok (),
        fun module _ => .ok ⟨module, .other "Int" [], ⟨[]⟩, .other "1"⟩⟩
    global p ["a", "b"] "b" = .error "ICE: Script loading failed unexpectedly" ∧
      CompilerEnv.findVar p ["a", "b"] "b" = .error "ICE: Script loading failed unexpectedly" ∧
      TypeEnv.findType p ["a", "b"] "b" = .error "ICE: Script loading failed unexpectedly" ∧
      MetadataEnv.getMetadata p ["a", "b"] "b" =
        .error "ICE: Script loading failed unexpectedly" :=
  ⟨rfl, rfl, rfl, rfl⟩

end embed_lang.query
