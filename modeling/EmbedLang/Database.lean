-- The compiler database's state over whole runs. Every load of a module's text ends in
-- `new_module`, which adds the module's file map and counts the load in `module_states`.
-- Each call locks the one `State` that every snapshot of the database shares, so the calls
-- of any threads form one sequence; after any sequence, the state is, as its users see it,
-- what an abstract machine of sources, files and loads gives.
import EmbedLang.QueryState
import EmbedLang.Globals

namespace embed_lang.query

/-! ## The state and its calls -/

/-- `State`, with `module_states`, where `new_module` counts the loads of each module. -/
structure CompilerState extends State where
  moduleStates : String → Option Nat

/-- `State::default()`. -/
def CompilerState.default : CompilerState := ⟨State.default, fun _ => none⟩

/-- `module_states.entry(module).and_modify(|v| *v += 1).or_default()`. -/
def bumpModuleState (moduleStates : String → Option Nat) (module : String) :
    String → Option Nat :=
  fun m =>
    if m = module then
      match moduleStates module with
      | some v => some (v + 1)
      | none => some 0
    else moduleStates m

/-- A call on the shared state: a file map method, `new_module`, or the `module_text` query,
which ends in `new_module`. -/
inductive DbCall
  | addFilemap (file src : String)
  | updateFilemap (file src : String)
  | newModule (module contents : String)
  /-- One execution of the body of the memoised `module_text` query. Salsa runs the body on a
  cache miss and skips it on a hit, so a run lists the executions that happen, in their
  order. -/
  | moduleText (module : String)

section

variable (ops : CodeMapOps) {ε Typed Compiled : Type} (p : Pipeline ε String Typed Compiled)

/-- `CompilationBase::new_module`: `add_filemap` of the module's text, and one more load of the
module counted. -/
def CompilerState.newModule (st : CompilerState) (module contents : String) : CompilerState :=
  ⟨(st.addFilemap ops module contents).1, bumpModuleState st.moduleStates module⟩

/-- `module_text`, with what it does to the state: the source the loader gives at the module's
file name, then `new_module` on it. A loader error leaves the state as it was. -/
def CompilerState.moduleText (st : CompilerState) (module : String) :
    Except ε String × CompilerState :=
  match embed_lang.query.moduleText p module with
  | .ok contents => (.ok contents, st.newModule ops module contents)
  | .error e => (.error e, st)

/-- The state after a call. -/
def CompilerState.call (st : CompilerState) : DbCall → CompilerState
  | .addFilemap file src => { st with toState := (st.addFilemap ops file src).1 }
  | .updateFilemap file src => { st with toState := (st.updateFilemap ops file src).1 }
  | .newModule module contents => st.newModule ops module contents
  | .moduleText module => (st.moduleText ops p module).2

/-- The states that calls reach from that of `CompilerDatabase::new_base`. -/
inductive Runs : List DbCall → CompilerState → Prop
  | default : Runs [] CompilerState.default
  | call {calls : List DbCall} {st : CompilerState} (c : DbCall) :
      Runs calls st → Runs (calls ++ [c]) (st.call ops p c)

end

/-- Whether a call loads `module`: `new_module` on it, or `module_text` of it when the loader
gives its source. -/
def DbCall.loads {ε Typed Compiled : Type} (p : Pipeline ε String Typed Compiled)
    (module : String) : DbCall → Bool
  | .newModule m _ => m == module
  | .moduleText m => m == module && (embed_lang.query.moduleText p m).toBool
  | _ => false

/-! ## What the state is for -/

/-- The state as its users see it: the source of each name's file map, the number of files in
the code map, and the number of loads of each module. -/
@[ext] structure Abstract where
  source : String → Option String
  files : Nat
  loads : String → Nat

namespace Abstract

/-- No source, no file, no load. -/
def init : Abstract := ⟨fun _ => none, 0, fun _ => 0⟩

/-- `file` gets the source `src`, in a new file unless that is its source already. -/
def add (a : Abstract) (file src : String) : Abstract :=
  if a.source file = some src then a
  else { a with source := fun f => if f = file then some src else a.source f, files := a.files + 1 }

/-- `file`, if it has a source, gets `src` in its place. -/
def update (a : Abstract) (file src : String) : Abstract :=
  if (a.source file).isSome then
    { a with source := fun f => if f = file then some src else a.source f }
  else a

/-- A load of `module` with the text `contents`. -/
def load (a : Abstract) (module contents : String) : Abstract :=
  { a.add module contents with loads := fun m => if m = module then a.loads m + 1 else a.loads m }

/-- A call, as the users of the state see it. -/
def step {ε Typed Compiled : Type} (p : Pipeline ε String Typed Compiled) (a : Abstract) :
    DbCall → Abstract
  | .addFilemap file src => a.add file src
  | .updateFilemap file src => a.update file src
  | .newModule module contents => a.load module contents
  | .moduleText module =>
    match moduleText p module with
    | .ok contents => a.load module contents
    | .error _ => a

variable (a : Abstract) (file src : String)

@[simp] theorem add_source :
    (a.add file src).source = fun f => if f = file then some src else a.source f := by
  unfold add
  split_ifs with h
  · funext f
    by_cases hf : f = file
    · subst hf; simp [h]
    · simp [hf]
  · rfl

@[simp] theorem add_files :
    (a.add file src).files = if a.source file = some src then a.files else a.files + 1 := by
  unfold add
  split_ifs <;> rfl

@[simp] theorem add_loads : (a.add file src).loads = a.loads := by
  unfold add
  split_ifs <;> rfl

@[simp] theorem update_loads : (a.update file src).loads = a.loads := by
  unfold update
  split_ifs <;> rfl

theorem load_loads (contents module : String) :
    (a.load file contents).loads module = a.loads module + if file = module then 1 else 0 := by
  by_cases h : file = module
  · subst h
    simp [load]
  · simp [load, h, Ne.symm h]

/-- The abstract machine counts the loads of each module. -/
theorem loads_foldl {ε Typed Compiled : Type} (p : Pipeline ε String Typed Compiled)
    (module : String) (calls : List DbCall) :
    ∀ a : Abstract, (calls.foldl (step p) a).loads module =
      a.loads module + calls.countP (DbCall.loads p module) := by
  induction calls with
  | nil => intro a; rfl
  | cons c calls ih =>
    intro a
    have hstep : (a.step p c).loads module =
        a.loads module + if c.loads p module then 1 else 0 := by
      cases c with
      | moduleText m =>
        simp only [step, DbCall.loads]
        split <;> simp_all [load_loads, Except.toBool]
      | newModule m contents => simp [step, DbCall.loads, load_loads]
      | addFilemap | updateFilemap => simp [step, DbCall.loads]
    rw [List.foldl_cons, ih, hstep, List.countP_cons]
    omega

end Abstract

/-- The state as its users see it. -/
def CompilerState.abstract (st : CompilerState) : Abstract :=
  ⟨st.sources, st.codeMap.files.length, fun m => (st.moduleStates m).elim 0 (· + 1)⟩

theorem bumpModuleState_elim (moduleStates : String → Option Nat) (module m : String) :
    (bumpModuleState moduleStates module m).elim 0 (· + 1) =
      if m = module then (moduleStates m).elim 0 (· + 1) + 1 else (moduleStates m).elim 0 (· + 1) := by
  unfold bumpModuleState
  by_cases hm : m = module
  · subst hm
    cases moduleStates m <;> simp
  · simp [hm]

/-! ## Every run refines the abstract machine -/

section

variable {ops : CodeMapOps} {ε Typed Compiled : Type} {p : Pipeline ε String Typed Compiled}
  {st : CompilerState}

/-- `add_filemap` is `Abstract.add` on the sources and on the size of the code map. -/
theorem CompilerState.addFilemap_abstract (hops : ops.Lawful) (hg : st.Good) (file src : String) :
    (st.addFilemap ops file src).1.Good ∧
      (st.addFilemap ops file src).1.sources = (st.abstract.add file src).source ∧
      (st.addFilemap ops file src).1.codeMap.files.length = (st.abstract.add file src).files := by
  obtain ⟨hgood, hsrc⟩ := hg.addFilemap_sources hops file src
  refine ⟨hgood, by simp [hsrc, CompilerState.abstract], ?_⟩
  rw [State.addFilemap_files hops hg.spaced]
  simp only [Abstract.add_files, CompilerState.abstract]
  split_ifs <;> simp

theorem CompilerState.newModule_abstract (hops : ops.Lawful) (hg : st.Good)
    (module contents : String) :
    (st.newModule ops module contents).Good ∧
      (st.newModule ops module contents).abstract = st.abstract.load module contents := by
  obtain ⟨hgood, hsrc, hfiles⟩ := st.addFilemap_abstract hops hg module contents
  exact ⟨hgood, Abstract.ext hsrc hfiles (funext fun m => bumpModuleState_elim _ _ _)⟩

/-- One call on the state is one step of the abstract machine, and keeps the file map
invariant. -/
theorem CompilerState.call_abstract (hops : ops.Lawful) (hg : st.Good) (c : DbCall) :
    (st.call ops p c).Good ∧ (st.call ops p c).abstract = st.abstract.step p c := by
  cases c with
  | addFilemap file src =>
    obtain ⟨hgood, hsrc, hfiles⟩ := st.addFilemap_abstract hops hg file src
    exact ⟨hgood, Abstract.ext hsrc hfiles (Abstract.add_loads st.abstract file src).symm⟩
  | updateFilemap file src =>
    obtain ⟨hgood, hsrc⟩ := hg.updateFilemap_sources hops file src
    refine ⟨hgood, ?_⟩
    simp only [CompilerState.call, CompilerState.abstract, hsrc,
      hg.updateFilemap_files hops file src, Abstract.step, Abstract.update]
    split_ifs <;> rfl
  | newModule module contents => exact CompilerState.newModule_abstract hops hg module contents
  | moduleText module =>
    simp only [CompilerState.call, CompilerState.moduleText, Abstract.step]
    cases embed_lang.query.moduleText p module with
    | ok contents => exact CompilerState.newModule_abstract hops hg module contents
    | error e => exact ⟨hg, rfl⟩

/-- Every run keeps the file map invariant and leaves the state, as its users see it, where the
abstract machine goes on the same calls. Each name has the source that its latest add or load
gave it, or a later update if it had a source then. The code map holds one file for each call
that gave a name a source other than its own: an update replaces a file in place, and no file
is ever dropped. And `module_states` has no entry for a module never loaded, and one less than
the number of its loads for any other. -/
theorem Runs.refines_abstract (hops : ops.Lawful) {calls : List DbCall}
    (hrun : Runs ops p calls st) :
    st.Good ∧ st.abstract = calls.foldl (Abstract.step p) Abstract.init ∧
      ∀ module, st.moduleStates module =
        if calls.countP (DbCall.loads p module) = 0 then none
        else some (calls.countP (DbCall.loads p module) - 1) := by
  have hrefines : st.Good ∧ st.abstract = calls.foldl (Abstract.step p) Abstract.init := by
    induction hrun with
    | default => exact ⟨⟨List.Pairwise.nil, fun _ _ h => (nomatch h), fun _ _ _ h => (nomatch h)⟩, rfl⟩
    | call c _ ih =>
      rw [List.foldl_append, List.foldl_cons, List.foldl_nil, ← ih.2]
      exact CompilerState.call_abstract hops ih.1 c
  refine ⟨hrefines.1, hrefines.2, fun module => ?_⟩
  have hloads := congrArg (·.loads module) hrefines.2
  simp only [CompilerState.abstract, Abstract.loads_foldl, Abstract.init, Nat.zero_add] at hloads
  rw [← hloads]
  cases st.moduleStates module <;> simp

end

/-- A load of `m` through `module_text`, a reload with a new text, and an update of a name never
added. -/
theorem Runs.refines_abstract_of_reload :
    let p : Pipeline String String Unit Unit :=
      ⟨fun _ _ => .ok "1", fun _ _ => .ok (), fun _ _ _ => .ok (),
        fun module _ => .ok ⟨module, .other "Int" [], ⟨[]⟩, .other "1"⟩⟩
    let calls := [DbCall.moduleText "m", .newModule "m" "2", .updateFilemap "n" "3"]
    let st := calls.foldl (CompilerState.call appendOps p) CompilerState.default
    appendOps.Lawful ∧ Runs appendOps p calls st ∧
      st.Good ∧ st.abstract = calls.foldl (Abstract.step p) Abstract.init ∧
        ∀ module, st.moduleStates module =
          if calls.countP (DbCall.loads p module) = 0 then none
          else some (calls.countP (DbCall.loads p module) - 1) :=
  ⟨appendOps_lawful, .call _ (.call _ (.call _ .default)),
    Runs.refines_abstract appendOps_lawful (.call _ (.call _ (.call _ .default)))⟩

end embed_lang.query
