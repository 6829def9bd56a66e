-- The derive splice of `visit_expr` on a type binding group: the first `derive`
-- attribute of each binding generates bindings, a failure is pushed at the binding's
-- name, and the bindings go in front of the body, where the walk then visits them.
import EmbedLang.MacroRun

namespace embed_lang.macros

open embed_lang.ast

section

variable {U : ErrorTypes} {M : Type}

/-- The bindings the derives of a group would generate if every `derive` attribute of a
binding were read, in the order of the bindings and then of the attributes. -/
def allDerivedBindings (generate : Attribute → TypeBinding → Except (Error U) (List ValueBinding))
    (binds : List TypeBinding) : List ValueBinding :=
  binds.flatMap fun bind =>
    (bind.attributes.filter (·.name == "derive")).flatMap fun derive =>
      match generate derive bind with
      | .ok generated => generated
      | .error _ => []

/-- The visit of a type binding group: the bindings that the first `derive` of each binding
generates go in front of the body, in a recursive `LetBindings`, when there are any; each
failure is pushed at the name of its binding; then the walk visits the new body, generated
bindings first. -/
theorem visitExpr_typeBindings (env : MacroEnv M)
    (generate : Attribute → TypeBinding → Except (Error U) (List ValueBinding))
    (calls : MacroCalls U) (fuel : Nat) (path : Path) (span : Span) (binds : List TypeBinding)
    (body : Expr) (st : VisitState U) :
    ∃ body', (groupBindings generate binds = [] ∧ body' = body ∨
        ∃ s, groupBindings generate binds ≠ [] ∧
          body' = letRec s (groupBindings generate binds) body) ∧
      visitExpr env generate calls (fuel + 1) path (.node span (.typeBindings binds) [body]) st =
        (visitExpr env generate calls fuel (path ++ [0]) body'
          { st with errors := st.errors ++ groupErrors generate binds }).map
          fun (b, st') => (.node span (.typeBindings binds) [b], st') := by
  have hcall : (macroCall? env (.node span (.typeBindings binds) [body])).isSome = false := rfl
  obtain ⟨hgen, herr⟩ := deriveBindings_contract generate binds
  refine ⟨derivedBody (groupBindings generate binds) body, ?_, ?_⟩
  · rcases h : groupBindings generate binds with _ | ⟨b, bs⟩
    · exact .inl ⟨rfl, rfl⟩
    · exact .inr ⟨Span.default, List.cons_ne_nil _ _, rfl⟩
  · rw [visitExpr_succ, if_neg (by simp [hcall])]
    simp only [rewriteNode, splitWalked, walkChildren, List.nil_append, List.length_nil,
      Option.map_some', Option.map_map, hgen, herr, spliceBody_eq]
    rcases visitExpr env generate calls fuel (path ++ [0]) _ _ with _ | _ <;> rfl

/-- Only the first `derive` attribute of a binding is read: of a binding with the two derives
`Show` and `Eq`, where reading every derive would generate `ShowT` and `EqT`, the group gets
`ShowT` alone. -/
theorem visitExpr_reads_first_derive :
    let derive (arg : String) : Attribute := ⟨"derive", some arg⟩
    let binds : List TypeBinding := [⟨"T", ⟨5, 6⟩, [derive "Show", derive "Eq"], "Int"⟩]
    let generate (d : Attribute) (bind : TypeBinding) : Except (Error ErrorTypes.none) (List ValueBinding) :=
      .ok [⟨d.arguments.getD "" ++ bind.name, .node ⟨0, 0⟩ (.other 0) []⟩]
    (visitExpr (⟨[]⟩ : MacroEnv Unit) generate ⟨fun _ => [], fun _ => .ok (.errorAt ⟨0, 0⟩)⟩ 3 []
        (.node ⟨0, 20⟩ (.typeBindings binds) [.node ⟨12, 20⟩ (.other 1) []]) ⟨[], []⟩).map
        (fun r => r.1.children.map Expr.kind) = some [.letBindings true ["ShowT"]] ∧
      (allDerivedBindings generate binds).map (·.name) = ["ShowT", "EqT"] := by
  decide

/-- The body spliced in front of a group stands at the span of `SpannedExpr::default()`, not at
the span of the body it replaces. -/
theorem spliceBody_span (generated : List ValueBinding) (body : Expr) (h : generated ≠ []) :
    (spliceBody generated body).span = Span.default := by
  simp [spliceBody, h, letRec]

/-- A group whose derive generates a binding, with its body at `12..20`: after the run, the
body stands at `0..0`. -/
theorem run_splice_loses_body_span :
    (@MacroEnv.run ErrorTypes.none Unit ⟨[]⟩ ⟨⟨[]⟩⟩
        (fun _ bind => .ok [⟨"show" ++ bind.name, .node ⟨0, 0⟩ (.other 0) []⟩])
        ⟨fun _ => [], fun _ => .ok (.errorAt ⟨0, 0⟩)⟩ ⟨List.range, fun _ => List.Perm.refl _⟩ 4
        (.node ⟨0, 20⟩ (.typeBindings [⟨"T", ⟨5, 6⟩, [⟨"derive", some "Show"⟩], "Int"⟩])
          [.node ⟨12, 20⟩ (.other 1) []])).map (fun r => r.1.children.map Expr.span) =
      some [⟨0, 0⟩] := by
  decide

end

end embed_lang.macros
