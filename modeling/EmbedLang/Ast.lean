-- The syntax tree that macro expansion rewrites. Each node of a `SpannedExpr<Symbol>`
-- is its span, its own data, and its sub-expressions in the order `walk_mut_expr`
-- visits them. A path names a node, as the `&mut` pointers that the visitor keeps do.
import Mathlib.Data.List.Basic

namespace embed_lang.ast

/-! ## Spans, attributes and bindings -/

/-- `Span<BytePos>`: where a node stands in the source. -/
structure Span where
  start : Nat
  stop : Nat
deriving DecidableEq, Repr

/-- `Span::default()`, the span of `SpannedExpr::default()`. -/
def Span.default : Span := ⟨0, 0⟩

instance : Inhabited Span := ⟨Span.default⟩

/-- An attribute `#[name(arguments)]` of a binding's metadata. -/
structure Attribute where
  name : String
  arguments : Option String
deriving DecidableEq, Repr

/-- A `TypeBinding`: the name of a type and its span, the attributes of its metadata, and the
type it aliases, which only the derive generators read. -/
structure TypeBinding where
  name : String
  nameSpan : Span
  attributes : List Attribute
  aliased : String
deriving DecidableEq, Repr

/-- The data of an `Expr` node apart from its sub-expressions. -/
inductive Node where
  /-- `Expr::Ident`. -/
  | ident (name : String)
  /-- `Expr::App`: the callee, then `implicitArgs` implicit arguments, then the arguments. -/
  | app (implicitArgs : Nat)
  /-- `Expr::LetBindings`: the expression of each binding, then the body. -/
  | letBindings (recursive : Bool) (names : List String)
  /-- `Expr::TypeBindings`: the body only, since a type binding holds no expression. -/
  | typeBindings (binds : List TypeBinding)
  /-- `Expr::MacroExpansion`: the original, then the replacement. -/
  | macroExpansion
  /-- `Expr::Error(None)`, the placeholder of a failed expansion. -/
  | error
  /-- Any other form of expression, which the visitor only walks through. -/
  | other (tag : Nat)
deriving DecidableEq, Repr

/-- A `SpannedExpr<Symbol>`. -/
inductive Expr where
  | node (span : Span) (kind : Node) (children : List Expr)
deriving Repr

instance : Inhabited Expr := ⟨.node Span.default .error []⟩

namespace Expr

def span : Expr → Span
  | node s _ _ => s

def kind : Expr → Node
  | node _ k _ => k

def children : Expr → List Expr
  | node _ _ cs => cs

@[simp] theorem span_node (s : Span) (k : Node) (cs : List Expr) : (node s k cs).span = s := rfl

@[simp] theorem kind_node (s : Span) (k : Node) (cs : List Expr) : (node s k cs).kind = k := rfl

@[simp] theorem children_node (s : Span) (k : Node) (cs : List Expr) :
    (node s k cs).children = cs := rfl

/-- `e.span = span`: the same node at another span. -/
def setSpan (span : Span) : Expr → Expr
  | node _ k cs => node span k cs

@[simp] theorem span_setSpan (s : Span) (e : Expr) : (e.setSpan s).span = s := by
  cases e; rfl

/-- `pos::spanned(span, Expr::Error(None))`. -/
def errorAt (span : Span) : Expr := node span .error []

/-- `Expr::MacroExpansion { original, replacement }` at `span`. -/
def macroExpansion (span : Span) (original replacement : Expr) : Expr :=
  node span .macroExpansion [original, replacement]

end Expr

/-- A `ValueBinding`: the name it binds and its expression. -/
structure ValueBinding where
  name : String
  expr : Expr
deriving Repr

/-- `Expr::LetBindings(ValueBindings::Recursive(binds), body)` at `span`. -/
def letRec (span : Span) (binds : List ValueBinding) (body : Expr) : Expr :=
  .node span (.letBindings true (binds.map (·.name))) (binds.map (·.expr) ++ [body])

/-! ## Paths -/

/-- A path from a node down to one below it: `i :: p` enters the `i`-th sub-expression. -/
abbrev Path := List Nat

/-- Two paths of which neither lies below the other: the nodes they name share no node. -/
def Apart (p q : Path) : Prop := ¬ p <+: q ∧ ¬ q <+: p

theorem Apart.symm {p q : Path} (h : Apart p q) : Apart q p := ⟨h.2, h.1⟩

@[simp] theorem apart_nil_left (q : Path) : ¬ Apart [] q := fun h => h.1 (List.nil_prefix)

@[simp] theorem apart_nil_right (p : Path) : ¬ Apart p [] := fun h => h.2 (List.nil_prefix)

@[simp] theorem apart_cons_cons (i j : Nat) (p q : Path) :
    Apart (i :: p) (j :: q) ↔ i ≠ j ∨ Apart p q := by
  simp only [Apart, List.cons_prefix_cons]
  by_cases h : i = j
  · subst h; simp
  · simp [h, Ne.symm h]

theorem apart_append {p q r : Path} (h : Apart q r) : Apart (p ++ q) (p ++ r) := by
  induction p with
  | nil => exact h
  | cons i p ih => exact (apart_cons_cons _ _ _ _).2 (.inr ih)

theorem apart_of_append_of_ne {p q r : Path} {i j : Nat} (h : i ≠ j) :
    Apart (p ++ i :: q) (p ++ j :: r) :=
  apart_append ((apart_cons_cons _ _ _ _).2 (.inl h))

namespace Expr

/-- The node at `p` below `e`. -/
def get? (e : Expr) : Path → Option Expr
  | [] => some e
  | i :: p => e.children[i]?.bind (·.get? p)

/-- `e` with the node at `p` put through `f`; a path that names no node changes nothing. -/
def modifyAt (f : Expr → Expr) : Path → Expr → Expr
  | [], e => f e
  | i :: p, node s k cs => node s k (cs.modify (modifyAt f p) i)

@[simp] theorem get?_nil (e : Expr) : e.get? [] = some e := rfl

@[simp] theorem get?_cons (s : Span) (k : Node) (cs : List Expr) (i : Nat) (p : Path) :
    (node s k cs).get? (i :: p) = cs[i]?.bind (·.get? p) := rfl

@[simp] theorem modifyAt_nil (f : Expr → Expr) (e : Expr) : e.modifyAt f [] = f e := rfl

@[simp] theorem modifyAt_cons (f : Expr → Expr) (s : Span) (k : Node) (cs : List Expr)
    (i : Nat) (p : Path) :
    (node s k cs).modifyAt f (i :: p) = node s k (cs.modify (modifyAt f p) i) := rfl

theorem modifyAt_append (f : Expr → Expr) (p q : Path) (e : Expr) :
    e.modifyAt f (p ++ q) = e.modifyAt (modifyAt f q) p := by
  induction p generalizing e with
  | nil => rfl
  | cons i p ih => cases e; simp [show modifyAt f (p ++ q) = modifyAt (modifyAt f q) p from funext ih]

theorem get?_append (p q : Path) (e : Expr) : e.get? (p ++ q) = (e.get? p).bind (·.get? q) := by
  induction p generalizing e with
  | nil => rfl
  | cons i p ih => cases e with
    | node s k cs => cases cs[i]? <;> simp [ih, Option.bind_assoc]

/-- Edits at two apart paths commute. -/
theorem modifyAt_comm (f g : Expr → Expr) {p q : Path} (h : Apart p q) (e : Expr) :
    (e.modifyAt g q).modifyAt f p = (e.modifyAt f p).modifyAt g q := by
  induction p generalizing q e with
  | nil => exact absurd h (apart_nil_left q)
  | cons i p ih =>
    cases q with
    | nil => exact absurd h (apart_nil_right _)
    | cons j q =>
      cases e with
      | node s k cs =>
        simp only [modifyAt_cons, node.injEq, true_and]
        by_cases hij : i = j
        · subst hij
          have hpq : Apart p q := ((apart_cons_cons _ _ _ _).1 h).resolve_left (not_not.2 rfl)
          simp only [List.modify_modify_eq]
          congr 1
          funext c
          exact ih hpq c
        · exact List.modify_modify_ne _ _ _ (Ne.symm hij)

/-- An edit leaves the nodes at paths apart from it as they were. -/
theorem get?_modifyAt_of_apart (f : Expr → Expr) {p q : Path} (h : Apart p q) (e : Expr) :
    (e.modifyAt f q).get? p = e.get? p := by
  induction p generalizing q e with
  | nil => exact absurd h (apart_nil_left q)
  | cons i p ih =>
    cases q with
    | nil => exact absurd h (apart_nil_right _)
    | cons j q =>
      cases e with
      | node s k cs =>
        simp only [modifyAt_cons, get?_cons, List.getElem?_modify]
        by_cases hij : j = i
        · subst hij
          have hpq : Apart p q := ((apart_cons_cons _ _ _ _).1 h).resolve_left (not_not.2 rfl)
          cases cs[j]? <;> simp [ih hpq]
        · simp [hij]

end Expr

end embed_lang.ast
