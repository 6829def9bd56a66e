-- The walk of `MacroExpander::run`, `MacroVisitor::visit_expr`. It splices the bindings
-- that `derive` attributes generate in front of each type binding's body, and registers
-- each call of a macro, with the future its `expand` returns, instead of walking into it.
import EmbedLang.MacroError

namespace embed_lang.macros

open embed_lang.ast

/-! ## The registry -/

/-- `MacroEnv`: the macros bound to names, the newest binding first. -/
structure MacroEnv (M : Type) where
  macros : List (String × M)

namespace MacroEnv

variable {M : Type}

/-- `MacroEnv::insert`: a new binding of a name hides the old one. -/
def insert (env : MacroEnv M) (name : String) (mac : M) : MacroEnv M :=
  ⟨(name, mac) :: env.macros.filter (·.1 != name)⟩

/-- `MacroEnv::get`. -/
def get (env : MacroEnv M) (name : String) : Option M :=
  (env.macros.find? (·.1 == name)).map (·.2)

theorem get_insert (env : MacroEnv M) (name name' : String) (mac : M) :
    (env.insert name mac).get name' = if name' = name then some mac else env.get name' := by
  by_cases h : name' = name
  · subst h; simp [insert, get]
  · have hfind : (env.macros.filter (·.1 != name)).find? (·.1 == name') =
        env.macros.find? (·.1 == name') := by
      rw [List.find?_filter]
      congr 1
      funext a
      by_cases ha : a.1 = name' <;> simp [ha, h]
    have hne : ¬ (name == name') = true := by simp [Ne.symm h]
    simp only [insert, get, if_neg h]
    rw [@List.find?_cons_of_neg _ (·.1 == name') (name, mac) _ hne, hfind]

end MacroEnv

/-! ## What the macro calls do -/

/-- What the macro calls of one run do, numbered in the order the visitor makes them: the errors
the `k`-th call's `expand` pushes onto the expander, and what the future it returns resolves to. -/
structure MacroCalls (U : ErrorTypes) where
  pushed : Nat → List (SpannedError U)
  outcome : Nat → Except (Error U) Expr

/-- What the visitor changes: the expander's errors, and `exprs`, the node of each registered
call in the order of the calls. The future of the `k`-th node is the `k`-th call's. -/
structure VisitState (U : ErrorTypes) where
  errors : List (SpannedError U)
  exprs : List Path

section

variable {U : ErrorTypes} {M : Type}

/-! ## Derive -/

/-- What the first `derive` attribute of `bind` generates, if it has one. -/
def derived (generate : Attribute → TypeBinding → Except (Error U) (List ValueBinding))
    (bind : TypeBinding) : Option (Except (Error U) (List ValueBinding)) :=
  (bind.attributes.find? (·.name == "derive")).map (generate · bind)

/-- One turn of the `flat_map` over the bindings of a group: the bindings `bind`'s derive
generates, or on a failure, none and an error at the name of the binding. -/
def deriveStep (generate : Attribute → TypeBinding → Except (Error U) (List ValueBinding))
    (acc : List ValueBinding × List (SpannedError U)) (bind : TypeBinding) :
    List ValueBinding × List (SpannedError U) :=
  match derived generate bind with
  | some (.ok generated) => (acc.1 ++ generated, acc.2)
  | some (.error err) => (acc.1, acc.2 ++ [(bind.nameSpan, err)])
  | none => acc

/-- The bindings that the derives of a group generate, and the errors after the group. -/
def deriveBindings (generate : Attribute → TypeBinding → Except (Error U) (List ValueBinding))
    (binds : List TypeBinding) (errors : List (SpannedError U)) :
    List ValueBinding × List (SpannedError U) :=
  binds.foldl (deriveStep generate) ([], errors)

/-- The body of a group after the splice: `LetBindings(Recursive(generated), body)`, at the span
of `SpannedExpr::default()`, when something was generated. -/
def spliceBody (generated : List ValueBinding) (body : Expr) : Expr :=
  if generated.isEmpty then body else letRec Span.default generated body

/-! ## The visitor -/

/-- The macro a callee `name` calls: `name` without the `!` it ends in. -/
def macroName? (name : String) : Option String :=
  if name.data.getLast? = some '!' then some ⟨name.data.dropLast⟩ else none

/-- The error pushed for a macro call with implicit arguments. -/
def implicitArgsMessage : String := "Implicit arguments are not allowed on macros"

/-- The `match` of `visit_expr` on one node: the node as it leaves it, the state, and whether
a macro was called on the node. -/
def visitNode (env : MacroEnv M)
    (generate : Attribute → TypeBinding → Except (Error U) (List ValueBinding))
    (calls : MacroCalls U) (e : Expr) (st : VisitState U) : Expr × VisitState U × Bool :=
  match e with
  | .node span (.app implicitArgs) (.node _ (.ident id) _ :: _) =>
    match macroName? id with
    | none => (e, st, false)
    | some name =>
      let st := if implicitArgs = 0 then st
        else { st with errors := st.errors ++ [(span, Error.message implicitArgsMessage)] }
      match env.get name with
      | none => (e, st, false)
      | some _ => (e, { st with errors := st.errors ++ calls.pushed st.exprs.length }, true)
  | .node span (.typeBindings binds) [body] =>
    let (generated, errors) := deriveBindings generate binds st.errors
    (.node span (.typeBindings binds) [spliceBody generated body], { st with errors }, false)
  | e => (e, st, false)

/-- `walk_mut_expr`'s split of a node's sub-expressions into those it leaves alone and those it
visits: of a `MacroExpansion` it visits the replacement and not the original. -/
def splitWalked : Node → List Expr → List Expr × List Expr
  | .macroExpansion, original :: cs => ([original], cs)
  | _, cs => ([], cs)

theorem splitWalked_append (kind : Node) (cs : List Expr) :
    (splitWalked kind cs).1 ++ (splitWalked kind cs).2 = cs := by
  unfold splitWalked
  split <;> rfl

/-- `walk_mut_expr`: `visit` on each sub-expression of a node it visits, in turn, the `i`-th at
`path ++ [i]`. -/
def walkChildren (visit : Path → Expr → VisitState U → Option (Expr × VisitState U))
    (path : Path) : Nat → List Expr → VisitState U → Option (List Expr × VisitState U)
  | _, [], st => some ([], st)
  | i, c :: cs, st =>
    (visit (path ++ [i]) c st).bind fun (c, st) =>
      (walkChildren visit path (i + 1) cs st).map fun (cs, st) => (c :: cs, st)

/-- `MacroVisitor::visit_expr` on the node at `path`: a macro call is registered, any other
node walked. The fuel bounds the depth of the walk, which has none in the source. -/
def visitExpr (env : MacroEnv M)
    (generate : Attribute → TypeBinding → Except (Error U) (List ValueBinding))
    (calls : MacroCalls U) : Nat → Path → Expr → VisitState U → Option (Expr × VisitState U)
  | 0, _, _, _ => none
  | fuel + 1, path, e, st =>
    match visitNode env generate calls e st with
    | (e, st, true) => some (e, { st with exprs := st.exprs ++ [path] })
    | (.node span kind cs, st, false) =>
      (walkChildren (visitExpr env generate calls fuel) path (splitWalked kind cs).1.length
          (splitWalked kind cs).2 st).map
        fun (ts, st) => (.node span kind ((splitWalked kind cs).1 ++ ts), st)

/-! ## What the visitor does to one node -/

/-- The callee of an `App` node when it is an identifier, and how many implicit arguments the
node has. -/
def callee? : Expr → Option (String × Nat)
  | .node _ (.app implicitArgs) (.node _ (.ident id) _ :: _) => some (id, implicitArgs)
  | _ => none

/-- The registered macro that `e` calls, when `e` is a call `name!(args)` of one. -/
def macroCall? (env : MacroEnv M) (e : Expr) : Option M :=
  (callee? e).bind fun (id, _) => (macroName? id).bind env.get

/-- The error of a call `name!` with implicit arguments, at the span of the call. -/
def implicitArgsError? (e : Expr) : Option (SpannedError U) :=
  (callee? e).bind fun (id, implicitArgs) =>
    if (macroName? id).isSome ∧ implicitArgs ≠ 0 then some (e.span, .message implicitArgsMessage)
    else none

/-- The bindings that the derives of a group generate, in the order of the bindings. -/
def generatedBindings (generate : Attribute → TypeBinding → Except (Error U) (List ValueBinding))
    (binds : List TypeBinding) : List ValueBinding :=
  binds.flatMap fun bind =>
    match derived generate bind with
    | some (.ok generated) => generated
    | _ => []

/-- An error at the name of each binding whose derive fails, in the order of the bindings. -/
def deriveFailures (generate : Attribute → TypeBinding → Except (Error U) (List ValueBinding))
    (binds : List TypeBinding) : List (SpannedError U) :=
  binds.filterMap fun bind =>
    match derived generate bind with
    | some (.error err) => some (bind.nameSpan, err)
    | _ => none

/-- What `visit_expr` makes of a node that is no macro call, with the errors it pushes there: the
splice of a type binding group, with the failures of its derives, or the error of a call `name!`
with implicit arguments. -/
def rewriteNode (generate : Attribute → TypeBinding → Except (Error U) (List ValueBinding))
    (e : Expr) : Expr × List (SpannedError U) :=
  match e with
  | .node span (.typeBindings binds) [body] =>
    (.node span (.typeBindings binds) [spliceBody (generatedBindings generate binds) body],
      deriveFailures generate binds)
  | e => (e, (implicitArgsError? e).toList)

theorem deriveBindings_eq (generate : Attribute → TypeBinding → Except (Error U) (List ValueBinding))
    (binds : List TypeBinding) (errors : List (SpannedError U)) :
    deriveBindings generate binds errors =
      (generatedBindings generate binds, errors ++ deriveFailures generate binds) := by
  suffices h : ∀ acc : List ValueBinding × List (SpannedError U),
      binds.foldl (deriveStep generate) acc =
        (acc.1 ++ generatedBindings generate binds, acc.2 ++ deriveFailures generate binds) from
    by simpa using h ([], errors)
  induction binds with
  | nil => simp [generatedBindings, deriveFailures]
  | cons bind binds ih =>
    intro acc
    rcases hd : derived generate bind with _ | (err | generated) <;>
      simp [deriveStep, hd, ih, generatedBindings, deriveFailures]

/-- `visit_expr`'s `match` on a node: a call of a registered macro is registered, after the error
on its implicit arguments and the errors its `expand` pushes; any other node is rewritten. -/
theorem visitNode_eq (env : MacroEnv M)
    (generate : Attribute → TypeBinding → Except (Error U) (List ValueBinding))
    (calls : MacroCalls U) (e : Expr) (st : VisitState U) :
    visitNode env generate calls e st =
      if (macroCall? env e).isSome then
        (e, { st with errors := st.errors ++ (implicitArgsError? e).toList ++
          calls.pushed st.exprs.length }, true)
      else
        ((rewriteNode generate e).1, { st with errors := st.errors ++ (rewriteNode generate e).2 },
          false) := by
  rcases e with ⟨span, kind, cs⟩
  cases kind with
  | app implicitArgs =>
    rcases cs with _ | ⟨⟨s, k, cs⟩, rest⟩
    · simp [visitNode, macroCall?, callee?, rewriteNode, implicitArgsError?]
    cases k with
    | ident id =>
      simp only [visitNode, macroCall?, callee?, rewriteNode, implicitArgsError?, Option.bind_some]
      rcases hn : macroName? id with _ | name
      · simp [hn]
      · rcases hg : env.get name with _ | mac <;> by_cases h : implicitArgs = 0 <;> simp [h, hn, hg]
    | _ => simp [visitNode, macroCall?, callee?, rewriteNode, implicitArgsError?]
  | typeBindings binds =>
    rcases cs with _ | ⟨body, _ | ⟨c, cs⟩⟩
    all_goals simp [visitNode, macroCall?, callee?, rewriteNode, implicitArgsError?,
      deriveBindings_eq]
  | _ => simp [visitNode, macroCall?, callee?, rewriteNode, implicitArgsError?]

end

end embed_lang.macros
