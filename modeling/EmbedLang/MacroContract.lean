-- What macro expansion is for, stated apart from the visitor: which nodes are the sites of
-- macro calls, what a site becomes, what the derives of a type binding group put in front of
-- its body, and which errors a run reports, in which order. `MacroExpansion` shows that the
-- walk of `MacroExpander::run` and the completion of its futures give exactly this.
import EmbedLang.MacroVisitor

namespace embed_lang.macros

open embed_lang.ast

section

variable {U : ErrorTypes} {M : Type}

/-! ## Sites -/

/-- A site: an application whose callee is an identifier `n!`, for a name `n` that the registry
binds. -/
def isSite (env : MacroEnv M) : Expr → Bool
  | .node _ (.app _) (.node _ (.ident id) _ :: _) => env.macros.any fun m => id == m.1 ++ "!"
  | _ => false

/-- What a site becomes when its future gives `result`: a `MacroExpansion` at the site's span,
holding the site as it was and, as the replacement, the tree the future gives with its top span
set to the site's, or `Expr::Error(None)` at the site's span when the future fails. -/
def expandedAt (result : Except (Error U) Expr) : Expr → Expr
  | .node s k cs => .node s .macroExpansion [.node s k cs,
      match result with
      | .ok (.node _ k' cs') => .node s k' cs'
      | .error _ => .node s .error []]

/-- The failure a site reports: the error of its future, at the site's span. -/
def failureAt (result : Except (Error U) Expr) (site : Expr) : List (SpannedError U) :=
  match result with
  | .ok _ => []
  | .error err => [(site.span, err)]

/-- The error on a call `n!` with implicit arguments, at the call's span, whether a macro is bound
to `n` or not. -/
def implicitArgsErrors : Expr → List (SpannedError U)
  | .node span (.app implicitArgs) (.node _ (.ident id) _ :: _) =>
    if implicitArgs ≠ 0 ∧ ['!'].isSuffixOf id.data then
      [(span, .message "Implicit arguments are not allowed on macros")]
    else []
  | _ => []

/-! ## Derives -/

/-- The first attribute named `derive`. -/
def firstDerive : List Attribute → Option Attribute
  | [] => none
  | a :: as => if a.name = "derive" then some a else firstDerive as

/-- What the first `derive` of a binding generates, and the error at the binding's name when
it fails; nothing for a binding with no `derive`. -/
def deriveOf (generate : Attribute → TypeBinding → Except (Error U) (List ValueBinding))
    (bind : TypeBinding) : List ValueBinding × List (SpannedError U) :=
  match firstDerive bind.attributes with
  | none => ([], [])
  | some derive =>
    match generate derive bind with
    | .ok generated => (generated, [])
    | .error err => ([], [(bind.nameSpan, err)])

/-- The bindings the derives of a group generate, binding by binding. -/
def groupBindings (generate : Attribute → TypeBinding → Except (Error U) (List ValueBinding))
    (binds : List TypeBinding) : List ValueBinding :=
  binds.flatMap fun bind => (deriveOf generate bind).1

/-- The failures of the derives of a group, binding by binding. -/
def groupErrors (generate : Attribute → TypeBinding → Except (Error U) (List ValueBinding))
    (binds : List TypeBinding) : List (SpannedError U) :=
  binds.flatMap fun bind => (deriveOf generate bind).2

/-- A group's body once its derives have run: `LetBindings(Recursive(G), body)` when they generate
the bindings `G`, and the body as it was when they generate none. The new node stands at the span
of `SpannedExpr::default()`, since the splice sets only the value of the body it replaces. -/
def derivedBody : List ValueBinding → Expr → Expr
  | [], body => body
  | generated, body => letRec Span.default generated body

/-! ## The expansion of a tree -/

/-- What becomes of a tree whose sites are numbered from some `k`: the tree, the errors pushed on
the way in the order of the walk, the failures of the sites' futures in the order of the sites,
and the number of sites. -/
structure Expected (U : ErrorTypes) (α : Type) where
  tree : α
  errors : List (SpannedError U)
  failures : List (SpannedError U)
  sites : Nat

/-- The trees of a list expanded in turn, the sites of each numbered after those before it. -/
def expectedList (expand : Nat → Expr → Option (Expected U Expr)) :
    Nat → List Expr → Option (Expected U (List Expr))
  | _, [] => some ⟨[], [], [], 0⟩
  | k, c :: cs => (expand k c).bind fun y => (expectedList expand (k + y.sites) cs).map fun ys =>
      ⟨y.tree :: ys.tree, y.errors ++ ys.errors, y.failures ++ ys.failures, y.sites + ys.sites⟩

/-- The expansion of a tree, its sites numbered from `k` in pre-order. A site becomes what its
future gives, and nothing inside it is expanded. A type binding group's body gets the bindings its
derives generate, and is expanded with them. The original that a `MacroExpansion` keeps is left
as it is. Every other node keeps its data and its span, and its sub-expressions are expanded. The
fuel bounds the depth. -/
def expected (env : MacroEnv M)
    (generate : Attribute → TypeBinding → Except (Error U) (List ValueBinding))
    (outcome : Nat → Except (Error U) Expr) : Nat → Nat → Expr → Option (Expected U Expr)
  | 0, _, _ => none
  | fuel + 1, k, e =>
    if isSite env e then
      some ⟨expandedAt (outcome k) e, implicitArgsErrors e, failureAt (outcome k) e, 1⟩
    else
      match e with
      | .node span (.typeBindings binds) [body] =>
        (expectedList (expected env generate outcome fuel) k
            [derivedBody (groupBindings generate binds) body]).map fun ys =>
          ⟨.node span (.typeBindings binds) ys.tree, groupErrors generate binds ++ ys.errors,
            ys.failures, ys.sites⟩
      | .node span .macroExpansion (original :: cs) =>
        (expectedList (expected env generate outcome fuel) k cs).map fun ys =>
          ⟨.node span .macroExpansion (original :: ys.tree), ys.errors, ys.failures, ys.sites⟩
      | .node span kind cs =>
        (expectedList (expected env generate outcome fuel) k cs).map fun ys =>
          ⟨.node span kind ys.tree, implicitArgsErrors e ++ ys.errors, ys.failures, ys.sites⟩

/-- The result of `MacroEnv::run` that the errors of an expansion call for: `Err` with the errors
of the walk and then the failures of the sites, when there are any. -/
def Expected.finish (y : Expected U Expr) : Except (List (SpannedError U)) Unit :=
  if (y.errors ++ y.failures).isEmpty then .ok () else .error (y.errors ++ y.failures)

/-! ## No site is left -/

mutual
/-- Whether a site stands in `e` outside every `MacroExpansion` node. -/
def liveCall (env : MacroEnv M) : Expr → Bool
  | .node s kind cs => isSite env (.node s kind cs) || (kind != .macroExpansion && liveCalls env cs)

/-- Whether `liveCall` holds of some tree of the list. -/
def liveCalls (env : MacroEnv M) : List Expr → Bool
  | [] => false
  | c :: cs => liveCall env c || liveCalls env cs
end

end

end embed_lang.macros
