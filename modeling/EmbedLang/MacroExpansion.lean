-- Macro expansion in one pass, and the proof that the visitor of `MacroExpander::run`
-- agrees with it: the nodes it registers lie apart from each other, and filling them in turn
-- gives the expanded tree. The one-pass expansion is then shown to be the expansion of the
-- contract in `MacroContract`.
import EmbedLang.MacroContract
import Mathlib.Data.List.Forall2

namespace embed_lang.macros

open embed_lang.ast

section

variable {U : ErrorTypes} {M : Type}

/-! ## The expansion of one call -/

/-- `replace_expr`: a `MacroExpansion` at the span of `expr` that keeps `expr` and holds `new`. -/
def replaceExpr (expr new : Expr) : Expr := .macroExpansion expr.span expr new

/-- What the `then` of `run` makes of the node of a call whose future gave `result`: the
expansion at the node's span, or `Expr::Error(None)` there, put in by `replace_expr`. -/
def expandedSite (result : Except (Error U) Expr) (site : Expr) : Expr :=
  match result with
  | .ok replacement => replaceExpr site (replacement.setSpan site.span)
  | .error _ => replaceExpr site (.errorAt site.span)

/-- The error that a call's future reports in the `then` of `run`: its own, at the span of the
call. -/
def siteError (result : Except (Error U) Expr) (span : Span) : Option (SpannedError U) :=
  match result with
  | .ok _ => none
  | .error err => some (span, err)

/-- An error at the span of each call whose future fails, the calls numbered from `k`, in their
order. -/
def failingSites (outcome : Nat → Except (Error U) Expr) (k : Nat) (sites : List Span) :
    List (SpannedError U) :=
  (sites.enumFrom k).filterMap fun (j, span) => siteError (outcome j) span

/-! ## The expansion in one pass -/

/-- The expansion of a tree: the tree with each macro call expanded, the errors the walk pushes,
and the span of each call, in the order of the calls. -/
structure Expansion (U : ErrorTypes) where
  tree : Expr
  errors : List (SpannedError U)
  sites : List Span

/-- `expand` on each of a list of trees in turn, the calls of each numbered after the ones
before. -/
def expandChildren (expand : Nat → Expr → Option (Expansion U)) :
    Nat → List Expr → Option (List Expr × List (SpannedError U) × List Span)
  | _, [] => some ([], [], [])
  | k, c :: cs => (expand k c).bind fun x =>
      (expandChildren expand (k + x.sites.length) cs).map fun (ts, errors, sites) =>
        (x.tree :: ts, x.errors ++ errors, x.sites ++ sites)

/-- Macro expansion in one pass, with the visitor's own tests and rewrites: each call of a
registered macro, numbered from `k` in pre-order, becomes at once what its future gives; any other
node is rewritten, and the sub-expressions that `walk_mut_expr` visits are expanded. The fuel
bounds the depth, as `visitExpr`'s does. -/
def expansion (env : MacroEnv M)
    (generate : Attribute → TypeBinding → Except (Error U) (List ValueBinding))
    (outcome : Nat → Except (Error U) Expr) : Nat → Nat → Expr → Option (Expansion U)
  | 0, _, _ => none
  | fuel + 1, k, e =>
    if (macroCall? env e).isSome then
      some ⟨expandedSite (outcome k) e, (implicitArgsError? e).toList, [e.span]⟩
    else
      match rewriteNode generate e with
      | (.node span kind cs, errors) =>
        (expandChildren (expansion env generate outcome fuel) k (splitWalked kind cs).2).map
          fun (ts, errs, sites) => ⟨.node span kind ((splitWalked kind cs).1 ++ ts), errors ++ errs, sites⟩

/-! ## Filling the registered nodes -/

/-- The nodes at `qs` filled in turn, the `j`-th with what the future of call `k + j` gives. -/
def fill (outcome : Nat → Except (Error U) Expr) : Nat → List Path → Expr → Expr
  | _, [], e => e
  | k, q :: qs, e => fill outcome (k + 1) qs (e.modifyAt (expandedSite (outcome k)) q)

theorem fill_append (outcome : Nat → Except (Error U) Expr) (qs rs : List Path) :
    ∀ (k : Nat) (e : Expr), fill outcome k (qs ++ rs) e = fill outcome (k + qs.length) rs (fill outcome k qs e) := by
  induction qs with
  | nil => simp [fill]
  | cons q qs ih => intro k e; simp [fill, ih, Nat.add_assoc, Nat.add_comm 1]

/-- Filling below the `j`-th sub-expression fills inside it. -/
theorem fill_map_cons (outcome : Nat → Except (Error U) Expr) (j : Nat) (qs : List Path) :
    ∀ (k : Nat) (s : Span) (kind : Node) (cs : List Expr),
      fill outcome k (qs.map (j :: ·)) (.node s kind cs) = .node s kind (cs.modify (fill outcome k qs) j) := by
  induction qs with
  | nil => intro k s kind cs; exact (congrArg _ (List.modify_id j cs)).symm
  | cons q qs ih =>
    intro k s kind cs
    simp only [List.map_cons, fill, Expr.modifyAt_cons, ih, List.modify_modify_eq]
    rfl

theorem modify_append_length {α : Type} (f : α → α) (pre cs : List α) (c : α) :
    (pre ++ c :: cs).modify f pre.length = pre ++ f c :: cs := by
  induction pre with
  | nil => rfl
  | cons a pre ih => simp [List.modify_succ_cons, ih]

/-! ## The visitor agrees with the expansion -/

/-- A visit at `path` from `st`, ending in `e'` and `st'`, agrees with the expansion `x` of the
same node, its calls numbered from `st.exprs.length`: the visit registers the nodes at
`path ++ q` for `q` in `qs`, apart from each other; filling them gives `x.tree`; they stand at
`x.sites`; and the errors pushed are `x.errors` when no `expand` pushes any. -/
structure Agrees (calls : MacroCalls U) (path : Path) (st : VisitState U) (e' : Expr)
    (st' : VisitState U) (x : Expansion U) (qs : List Path) : Prop where
  exprs : st'.exprs = st.exprs ++ qs.map (path ++ ·)
  apart : qs.Pairwise Apart
  filled : fill calls.outcome st.exprs.length qs e' = x.tree
  sites : qs.map (fun q => (e'.get? q).map Expr.span) = x.sites.map some
  errors : (∀ k, calls.pushed k = []) → st'.errors = st.errors ++ x.errors

/-- A visit and an expansion of one node agree: both run out of fuel, or both end, and agree. -/
def Simulates (calls : MacroCalls U) (path : Path) (st : VisitState U) :
    Option (Expr × VisitState U) → Option (Expansion U) → Prop
  | none, none => True
  | some (e', st'), some x => ∃ qs, Agrees calls path st e' st' x qs
  | _, _ => False

/-- `Agrees` for the walk over the sub-expressions of a node from the `i`-th on. The paths are
below the node, and each enters a sub-expression from the `i`-th on. -/
structure AgreesList (calls : MacroCalls U) (path : Path) (i : Nat) (st : VisitState U)
    (cs' : List Expr) (st' : VisitState U) (ts : List Expr) (errs : List (SpannedError U))
    (sites : List Span) (qs : List Path) : Prop where
  exprs : st'.exprs = st.exprs ++ qs.map (path ++ ·)
  heads : ∀ q ∈ qs, ∃ j q', q = j :: q' ∧ i ≤ j
  apart : qs.Pairwise Apart
  filled : ∀ s kind (pre : List Expr), pre.length = i →
    fill calls.outcome st.exprs.length qs (.node s kind (pre ++ cs')) = .node s kind (pre ++ ts)
  sites : ∀ s kind (pre : List Expr), pre.length = i →
    qs.map (fun q => ((Expr.node s kind (pre ++ cs')).get? q).map Expr.span) = sites.map some
  errors : (∀ k, calls.pushed k = []) → st'.errors = st.errors ++ errs

def SimulatesList (calls : MacroCalls U) (path : Path) (i : Nat) (st : VisitState U) :
    Option (List Expr × VisitState U) → Option (List Expr × List (SpannedError U) × List Span) →
      Prop
  | none, none => True
  | some (cs', st'), some (ts, errs, sites) => ∃ qs, AgreesList calls path i st cs' st' ts errs sites qs
  | _, _ => False

theorem Simulates.elim {calls : MacroCalls U} {path : Path} {st : VisitState U}
    {w : Option (Expr × VisitState U)} {x : Option (Expansion U)}
    (h : Simulates calls path st w x) :
    (w = none ∧ x = none) ∨
      ∃ e' st' x' qs, w = some (e', st') ∧ x = some x' ∧ Agrees calls path st e' st' x' qs := by
  rcases w with _ | ⟨e', st'⟩ <;> rcases x with _ | x
  · exact .inl ⟨rfl, rfl⟩
  · exact False.elim h
  · exact False.elim h
  · obtain ⟨qs, a⟩ := h
    exact .inr ⟨e', st', x, qs, rfl, rfl, a⟩

theorem SimulatesList.elim {calls : MacroCalls U} {path : Path} {i : Nat} {st : VisitState U}
    {w : Option (List Expr × VisitState U)}
    {x : Option (List Expr × List (SpannedError U) × List Span)}
    (h : SimulatesList calls path i st w x) :
    (w = none ∧ x = none) ∨ ∃ cs' st' ts errs sites qs, w = some (cs', st') ∧
      x = some (ts, errs, sites) ∧ AgreesList calls path i st cs' st' ts errs sites qs := by
  rcases w with _ | ⟨cs', st'⟩ <;> rcases x with _ | ⟨ts, errs, sites⟩
  · exact .inl ⟨rfl, rfl⟩
  · exact False.elim h
  · exact False.elim h
  · obtain ⟨qs, a⟩ := h
    exact .inr ⟨cs', st', ts, errs, sites, qs, rfl, rfl, a⟩

theorem AgreesList.nil (calls : MacroCalls U) (path : Path) (i : Nat) (st : VisitState U) :
    AgreesList calls path i st [] st [] [] [] [] :=
  ⟨by simp, by simp, List.Pairwise.nil, fun _ _ _ _ => rfl, fun _ _ _ _ => rfl, fun _ => by simp⟩

/-- Agreement composes along the walk: the visit of the `i`-th sub-expression, then the walk over
the rest, agrees with the expansion of that sub-expression, then of the rest. -/
theorem AgreesList.cons {calls : MacroCalls U} {path : Path} {i : Nat}
    {st st1 st2 : VisitState U} {c' : Expr} {x : Expansion U} {q1 : List Path}
    {cs' ts : List Expr} {errs : List (SpannedError U)} {sites : List Span} {q2 : List Path}
    (a1 : Agrees calls (path ++ [i]) st c' st1 x q1)
    (a2 : AgreesList calls path (i + 1) st1 cs' st2 ts errs sites q2) :
    AgreesList calls path i st (c' :: cs') st2 (x.tree :: ts) (x.errors ++ errs)
      (x.sites ++ sites) (q1.map (i :: ·) ++ q2) := by
  have hlen : st1.exprs.length = st.exprs.length + q1.length := by simp [a1.exprs]
  refine ⟨by simp [a2.exprs, a1.exprs], fun q hq => ?_, ?_, fun s kind pre hpre => ?_,
    fun s kind pre hpre => ?_, fun hp => by simp [a2.errors hp, a1.errors hp]⟩
  · rcases List.mem_append.1 hq with hq | hq
    · obtain ⟨q', -, rfl⟩ := List.mem_map.1 hq
      exact ⟨i, q', rfl, le_rfl⟩
    · obtain ⟨j, q', rfl, hj⟩ := a2.heads q hq
      exact ⟨j, q', rfl, by omega⟩
  · refine List.pairwise_append.2 ⟨?_, a2.apart, fun a ha b hb => ?_⟩
    · exact List.pairwise_map.2 (a1.apart.imp fun h => (apart_cons_cons _ _ _ _).2 (.inr h))
    · obtain ⟨q', -, rfl⟩ := List.mem_map.1 ha
      obtain ⟨j, q'', rfl, hj⟩ := a2.heads b hb
      exact (apart_cons_cons _ _ _ _).2 (.inl (by omega))
  · have h := a2.filled s kind (pre ++ [x.tree]) (by simp [hpre])
    simp only [List.append_assoc, List.singleton_append] at h
    simp only [fill_append, fill_map_cons, ← hpre, modify_append_length, a1.filled,
      List.length_map, ← hlen]
    exact h
  · have hget : ∀ q, (Expr.node s kind (pre ++ c' :: cs')).get? (i :: q) = c'.get? q := by
      intro q
      rw [Expr.get?_cons, ← hpre, List.getElem?_append_right (le_refl _), Nat.sub_self,
        List.getElem?_cons_zero, Option.some_bind]
    have h2 := a2.sites s kind (pre ++ [c']) (by simp [hpre])
    simp only [List.append_assoc, List.singleton_append] at h2
    rw [List.map_append, List.map_map, List.map_append, ← h2, ← a1.sites]
    congr 1
    exact List.map_congr_left fun q _ => by simp [hget]

/-- The walk over the sub-expressions of a node agrees with their expansion, when the visit of each
agrees with its expansion. -/
theorem walkChildren_simulates (calls : MacroCalls U)
    {visit : Path → Expr → VisitState U → Option (Expr × VisitState U)}
    {expand : Nat → Expr → Option (Expansion U)}
    (hvisit : ∀ path e st, Simulates calls path st (visit path e st) (expand st.exprs.length e))
    (path : Path) : ∀ (cs : List Expr) (i : Nat) (st : VisitState U),
      SimulatesList calls path i st (walkChildren visit path i cs st)
        (expandChildren expand st.exprs.length cs)
  | [], i, st => ⟨[], AgreesList.nil calls path i st⟩
  | c :: cs, i, st => by
    simp only [walkChildren, expandChildren]
    rcases (hvisit (path ++ [i]) c st).elim with ⟨hv, hx⟩ | ⟨c', st1, x, q1, hv, hx, a1⟩
    · simp [hv, hx, SimulatesList]
    have hlen : st.exprs.length + x.sites.length = st1.exprs.length := by
      simpa [a1.exprs] using (congrArg List.length a1.sites).symm
    rw [hv, hx, Option.some_bind, Option.some_bind, hlen]
    rcases (walkChildren_simulates calls hvisit path cs (i + 1) st1).elim with
      ⟨hw, he⟩ | ⟨cs', st2, ts, errs, sites, q2, hw, he, a2⟩
    · simp [hw, he, SimulatesList]
    · rw [hw, he]
      exact ⟨_, AgreesList.cons a1 a2⟩

theorem visitExpr_succ (env : MacroEnv M)
    (generate : Attribute → TypeBinding → Except (Error U) (List ValueBinding))
    (calls : MacroCalls U) (fuel : Nat) (path : Path) (e : Expr) (st : VisitState U) :
    visitExpr env generate calls (fuel + 1) path e st =
      if (macroCall? env e).isSome then
        some (e, { errors := st.errors ++ (implicitArgsError? e).toList ++
          calls.pushed st.exprs.length, exprs := st.exprs ++ [path] })
      else
        match rewriteNode generate e with
        | (.node span kind cs, errs) =>
          (walkChildren (visitExpr env generate calls fuel) path (splitWalked kind cs).1.length
            (splitWalked kind cs).2 { st with errors := st.errors ++ errs }).map
            fun (ts, st) => (.node span kind ((splitWalked kind cs).1 ++ ts), st) := by
  rw [visitExpr, visitNode_eq]
  split_ifs
  · cases e; rfl
  · rcases rewriteNode generate e with ⟨⟨span, kind, cs⟩, errs⟩
    rfl

/-- A walk over the sub-expressions of a node after those in `pre`, which it leaves alone, that
agrees with their expansion makes the visit of the node agree with its expansion. -/
theorem simulates_node {calls : MacroCalls U} {path : Path} {st : VisitState U} (span : Span)
    (kind : Node) (pre : List Expr) (errs : List (SpannedError U))
    {w : Option (List Expr × VisitState U)}
    {x : Option (List Expr × List (SpannedError U) × List Span)}
    (h : SimulatesList calls path pre.length { st with errors := st.errors ++ errs } w x) :
    Simulates calls path st (w.map fun (cs, st) => (.node span kind (pre ++ cs), st))
      (x.map fun (ts, errs', sites) => ⟨.node span kind (pre ++ ts), errs ++ errs', sites⟩) := by
  rcases h.elim with ⟨rfl, rfl⟩ | ⟨cs', st', ts, errs', sites, qs, rfl, rfl, a⟩
  · trivial
  · exact ⟨qs, a.exprs, a.apart, a.filled span kind pre rfl, a.sites span kind pre rfl,
      fun hp => by simp [a.errors hp]⟩

/-- The visitor agrees with the one-pass expansion, at every fuel. -/
theorem visitExpr_simulates (env : MacroEnv M)
    (generate : Attribute → TypeBinding → Except (Error U) (List ValueBinding))
    (calls : MacroCalls U) : ∀ (fuel : Nat) (path : Path) (e : Expr) (st : VisitState U),
      Simulates calls path st (visitExpr env generate calls fuel path e st)
        (expansion env generate calls.outcome fuel st.exprs.length e)
  | 0, _, _, _ => trivial
  | fuel + 1, path, e, st => by
    rw [visitExpr_succ, expansion]
    split_ifs
    · exact ⟨[[]], by simp, by simp, by simp [fill], by simp, fun hp => by simp [hp]⟩
    · rcases rewriteNode generate e with ⟨⟨span, kind, cs⟩, errs⟩
      exact simulates_node span kind _ errs (walkChildren_simulates calls
        (visitExpr_simulates env generate calls fuel) path _ _ _)

/-! ## One level of the expansion -/

/-- The trees of `expandChildren` are expansions of the sub-expressions, one for one. -/
theorem expandChildren_forall₂ {expand : Nat → Expr → Option (Expansion U)} :
    ∀ {k : Nat} {cs ts : List Expr} {errs : List (SpannedError U)} {sites : List Span},
      expandChildren expand k cs = some (ts, errs, sites) →
        List.Forall₂ (fun c t => ∃ k x, expand k c = some x ∧ x.tree = t) cs ts
  | _, [], ts, _, _, h => by
    simp only [expandChildren, Option.some.injEq, Prod.mk.injEq] at h
    rw [← h.1]; exact .nil
  | k, c :: cs, ts, errs, sites, h => by
    simp only [expandChildren, Option.bind_eq_some, Option.map_eq_some'] at h
    obtain ⟨x, hx, ⟨ts', errs', sites'⟩, hrest, heq⟩ := h
    simp only [Prod.mk.injEq] at heq
    rw [← heq.1]
    exact .cons ⟨k, x, hx, rfl⟩ (expandChildren_forall₂ hrest)

section

variable {env : MacroEnv M}
  {generate : Attribute → TypeBinding → Except (Error U) (List ValueBinding)}
  {outcome : Nat → Except (Error U) Expr} {fuel k : Nat} {e : Expr} {x : Expansion U}

/-- One level of `expansion` at a registered macro call: the future's outcome in its place. -/
theorem expansion_succ_of_site (h : expansion env generate outcome (fuel + 1) k e = some x)
    (hsite : (macroCall? env e).isSome) :
    x = ⟨expandedSite (outcome k) e, (implicitArgsError? e).toList, [e.span]⟩ := by
  rw [expansion, if_pos hsite] at h
  exact (Option.some.inj h).symm

/-- One level of `expansion` at any other node: the node rewritten, with the sub-expressions that
the walk visits expanded. -/
theorem expansion_succ_of_not_site (h : expansion env generate outcome (fuel + 1) k e = some x)
    (hsite : ¬ (macroCall? env e).isSome) :
    ∃ span kind cs errors ts errs sites,
      rewriteNode generate e = (.node span kind cs, errors) ∧
      expandChildren (expansion env generate outcome fuel) k (splitWalked kind cs).2 =
        some (ts, errs, sites) ∧
      x = ⟨.node span kind ((splitWalked kind cs).1 ++ ts), errors ++ errs, sites⟩ := by
  rw [expansion, if_neg hsite] at h
  rcases hr : rewriteNode generate e with ⟨⟨span, kind, cs⟩, errors⟩
  rw [hr] at h
  simp only [Option.map_eq_some'] at h
  obtain ⟨⟨ts, errs, sites⟩, hts, rfl⟩ := h
  exact ⟨span, kind, cs, errors, ts, errs, sites, rfl, hts, rfl⟩

end

theorem splitWalked_of_ne {kind : Node} (h : kind ≠ .macroExpansion) (cs : List Expr) :
    splitWalked kind cs = ([], cs) := by
  cases kind <;> first | rfl | exact absurd rfl h

theorem mem_of_mem_walked {kind : Node} {cs : List Expr} {c : Expr}
    (h : c ∈ (splitWalked kind cs).2) : c ∈ cs :=
  splitWalked_append kind cs ▸ List.mem_append_right _ h

/-- The callee of a node depends only on its kind and the kind of its first sub-expression. -/
theorem callee?_node (s : Span) (kind : Node) (cs : List Expr) :
    callee? (.node s kind cs) =
      match kind, cs.head?.map Expr.kind with
      | .app n, some (.ident id) => some (id, n)
      | _, _ => none := by
  rcases kind with _ | n | _ | _ | _ | _ | _ <;> rcases cs with _ | ⟨⟨s', k', cs'⟩, cs⟩ <;>
    try rcases k' with _ | _ | _ | _ | _ | _ | _
  all_goals rfl

theorem kind_of_isSome_macroCall {env : MacroEnv M} {e : Expr} (h : (macroCall? env e).isSome) :
    ∃ n, e.kind = .app n := by
  rcases e with ⟨s, kind, cs⟩
  rcases kind with _ | n | _ | _ | _ | _ | _
  all_goals simp [macroCall?, callee?_node] at h
  exact ⟨n, rfl⟩

theorem rewriteNode_kind (generate : Attribute → TypeBinding → Except (Error U) (List ValueBinding))
    (e : Expr) : (rewriteNode generate e).1.kind = e.kind := by
  rcases e with ⟨s, kind, cs⟩
  rcases kind with _ | _ | _ | binds | _ | _ | _ <;> try rfl
  rcases cs with _ | ⟨body, _ | ⟨c, cs⟩⟩ <;> rfl

theorem expansion_kind {env : MacroEnv M}
    {generate : Attribute → TypeBinding → Except (Error U) (List ValueBinding)}
    {outcome : Nat → Except (Error U) Expr} :
    ∀ {fuel k : Nat} {e : Expr} {x : Expansion U}, expansion env generate outcome fuel k e = some x →
      x.tree.kind = if (macroCall? env e).isSome then .macroExpansion else e.kind
  | 0, _, _, _, h => by simp [expansion] at h
  | fuel + 1, k, e, x, h => by
    by_cases hsite : (macroCall? env e).isSome
    · rw [if_pos hsite, expansion_succ_of_site h hsite]
      cases outcome k <;> rfl
    · obtain ⟨span, kind, cs, _, _, _, _, hr, -, rfl⟩ := expansion_succ_of_not_site h hsite
      rw [if_neg hsite, ← rewriteNode_kind generate e, hr]
      rfl

/-- Expanding a node that is no macro call keeps its callee. -/
theorem callee?_expansion {env : MacroEnv M}
    {generate : Attribute → TypeBinding → Except (Error U) (List ValueBinding)}
    {outcome : Nat → Except (Error U) Expr} {fuel k : Nat} {e : Expr} {x : Expansion U}
    (h : expansion env generate outcome (fuel + 1) k e = some x)
    (hsite : ¬ (macroCall? env e).isSome) : callee? x.tree = callee? e := by
  obtain ⟨span, kind, cs, _, ts, _, _, hr, hts, rfl⟩ := expansion_succ_of_not_site h hsite
  have hk := rewriteNode_kind generate e
  rcases e with ⟨s0, k0, cs0⟩
  rw [hr, Expr.kind_node, Expr.kind_node] at hk
  subst hk
  rw [callee?_node, callee?_node]
  cases kind with
  | app n =>
    simp only [rewriteNode, Prod.mk.injEq, Expr.node.injEq] at hr
    obtain ⟨⟨-, -, rfl⟩, -⟩ := hr
    rw [splitWalked_of_ne (by simp)] at hts ⊢
    cases expandChildren_forall₂ hts with
    | nil => rfl
    | cons hct _ =>
      obtain ⟨k', x', hx', rfl⟩ := hct
      simp only [List.nil_append, List.head?_cons, Option.map_some', expansion_kind hx']
      split_ifs with hc
      · obtain ⟨m, hm⟩ := kind_of_isSome_macroCall hc
        simp [hm]
      · rfl
  | _ => rfl

/-! ## The sites are the calls the visitor registers -/

theorem macroName?_eq_some {id name : String} : macroName? id = some name ↔ id = name ++ "!" := by
  obtain ⟨l⟩ := id
  obtain ⟨n⟩ := name
  have hmk : ∀ a b : List Char, String.mk a = String.mk b ↔ a = b :=
    fun _ _ => ⟨congrArg String.data, congrArg String.mk⟩
  show (if l.getLast? = some '!' then some (⟨l.dropLast⟩ : String) else none) = some ⟨n⟩ ↔
    String.mk l = String.mk (n ++ ['!'])
  rw [hmk]
  constructor
  · intro h
    split at h
    · obtain ⟨ys, rfl⟩ := List.getLast?_eq_some_iff.1 ‹_›
      simp only [List.dropLast_concat, Option.some.injEq, hmk] at h
      rw [h]
    · cases h
  · rintro rfl
    simp

/-- A callee `n!` is bound exactly when some name of the registry followed by `!` spells it. -/
theorem any_bang_eq (env : MacroEnv M) (id : String) :
    (env.macros.any fun m => id == m.1 ++ "!") = ((macroName? id).bind env.get).isSome := by
  rcases h : macroName? id with _ | name
  · refine List.any_eq_false.2 fun m _ hm => ?_
    rw [macroName?_eq_some.2 (beq_iff_eq.1 hm)] at h
    cases h
  · obtain rfl := macroName?_eq_some.1 h
    have hinj : ∀ m : String, name ++ "!" = m ++ "!" ↔ m = name := fun m =>
      ⟨fun hm => Option.some.inj ((macroName?_eq_some.2 hm).symm.trans (macroName?_eq_some.2 rfl)),
        fun hm => hm ▸ rfl⟩
    simp only [Option.some_bind, MacroEnv.get, Option.isSome_map']
    rw [Bool.eq_iff_iff, List.any_eq_true, List.find?_isSome]
    simp [hinj]

/-- The sites of the contract are the nodes that `visit_expr` registers. -/
theorem isSite_eq (env : MacroEnv M) (e : Expr) : isSite env e = (macroCall? env e).isSome := by
  rcases e with ⟨s, kind, cs⟩
  rcases kind with _ | n | _ | _ | _ | _ | _ <;> rcases cs with _ | ⟨⟨s', k', cs'⟩, cs⟩ <;>
    try rcases k' with _ | _ | _ | _ | _ | _ | _
  all_goals try rfl
  exact any_bang_eq env _

/-! ## No call is left -/

theorem liveCalls_eq_false {env : MacroEnv M} {α : Type} :
    ∀ {cs : List α} {ts : List Expr}, List.Forall₂ (fun _ t => liveCall env t = false) cs ts →
      liveCalls env ts = false
  | _, _, .nil => rfl
  | _, _, .cons h hs => by simp [liveCalls, h, liveCalls_eq_false hs]

/-- No site is left outside the `MacroExpansion` nodes of an expansion. -/
theorem liveCall_expansion (env : MacroEnv M)
    (generate : Attribute → TypeBinding → Except (Error U) (List ValueBinding))
    (outcome : Nat → Except (Error U) Expr) :
    ∀ {fuel k : Nat} {e : Expr} {x : Expansion U}, expansion env generate outcome fuel k e = some x →
      liveCall env x.tree = false
  | 0, _, _, _, h => by simp [expansion] at h
  | fuel + 1, k, e, x, h => by
    by_cases hsite : (macroCall? env e).isSome
    · rw [expansion_succ_of_site h hsite]
      cases outcome k <;> rfl
    · have hcallee := callee?_expansion h hsite
      obtain ⟨span, kind, cs, _, ts, _, _, -, hts, rfl⟩ := expansion_succ_of_not_site h hsite
      have hlive : liveCalls env ts = false :=
        liveCalls_eq_false ((expandChildren_forall₂ hts).imp fun _ _ ⟨_, _, hx', ht⟩ =>
          ht ▸ liveCall_expansion env generate outcome hx')
      have hnot : isSite env (.node span kind ((splitWalked kind cs).1 ++ ts)) = false := by
        simpa [isSite_eq, macroCall?, hcallee] using hsite
      rw [liveCall, hnot, Bool.false_or]
      by_cases hk : kind = .macroExpansion
      · simp [hk]
      · simp [splitWalked_of_ne hk, hlive]

/-! ## Enough fuel -/

mutual
/-- The height of a tree: one more than that of its tallest sub-expression. -/
def height : Expr → Nat
  | .node _ _ cs => heights cs + 1

/-- The height of the tallest tree of a list, `0` for none. -/
def heights : List Expr → Nat
  | [] => 0
  | c :: cs => Nat.max (height c) (heights cs)
end

mutual
/-- No type binding group of `e` gets bindings from its derives, so the walk rewrites no node. -/
def noSplice (generate : Attribute → TypeBinding → Except (Error U) (List ValueBinding)) :
    Expr → Bool
  | .node _ (.typeBindings binds) cs =>
    (generatedBindings generate binds).isEmpty && noSplices generate cs
  | .node _ _ cs => noSplices generate cs

/-- `noSplice` of every tree of a list. -/
def noSplices (generate : Attribute → TypeBinding → Except (Error U) (List ValueBinding)) :
    List Expr → Bool
  | [] => true
  | c :: cs => noSplice generate c && noSplices generate cs
end

theorem height_le_heights {c : Expr} {cs : List Expr} (h : c ∈ cs) :
    height c ≤ heights cs := by
  induction cs with
  | nil => cases h
  | cons d ds ih =>
    rw [heights]
    rcases List.mem_cons.1 h with rfl | h
    · exact Nat.le_max_left _ _
    · exact Nat.le_trans (ih h) (Nat.le_max_right _ _)

theorem noSplice_of_mem {generate : Attribute → TypeBinding → Except (Error U) (List ValueBinding)}
    {c : Expr} {cs : List Expr} (hcs : noSplices generate cs = true) (h : c ∈ cs) :
    noSplice generate c = true := by
  induction cs with
  | nil => cases h
  | cons d ds ih =>
    simp only [noSplices, Bool.and_eq_true] at hcs
    rcases List.mem_cons.1 h with rfl | h
    · exact hcs.1
    · exact ih hcs.2 h

/-- Where no derive generates bindings, the walk leaves each node as it is. -/
theorem rewriteNode_of_noSplice
    {generate : Attribute → TypeBinding → Except (Error U) (List ValueBinding)}
    {span : Span} {kind : Node} {cs : List Expr} (h : noSplice generate (.node span kind cs) = true) :
    (rewriteNode generate (.node span kind cs)).1 = .node span kind cs ∧
      noSplices generate cs = true := by
  cases kind with
  | typeBindings binds =>
    simp only [noSplice, Bool.and_eq_true, List.isEmpty_iff] at h
    refine ⟨?_, h.2⟩
    rcases cs with _ | ⟨body, _ | ⟨c, cs⟩⟩ <;> simp [rewriteNode, spliceBody, h.1]
  | _ => exact ⟨rfl, h⟩

theorem expandChildren_isSome {expand : Nat → Expr → Option (Expansion U)} {cs : List Expr}
    (h : ∀ c ∈ cs, ∀ k, (expand k c).isSome) (k : Nat) : (expandChildren expand k cs).isSome := by
  induction cs generalizing k with
  | nil => rfl
  | cons c cs ih =>
    obtain ⟨x, hx⟩ := Option.isSome_iff_exists.1 (h c (List.mem_cons_self _ _) k)
    simp only [expandChildren, hx, Option.some_bind, Option.isSome_map']
    exact ih (fun c' hc' => h c' (List.mem_cons_of_mem _ hc')) _

/-- On a tree in which no derive generates bindings, the expansion returns once its fuel reaches
the tree's height. -/
theorem expansion_isSome (env : MacroEnv M)
    (generate : Attribute → TypeBinding → Except (Error U) (List ValueBinding))
    (outcome : Nat → Except (Error U) Expr) {fuel : Nat} :
    ∀ {k : Nat} {e : Expr}, noSplice generate e = true → height e ≤ fuel →
      (expansion env generate outcome fuel k e).isSome := by
  induction fuel with
  | zero => rintro _ ⟨_, _, _⟩ _ hh; simp [height] at hh
  | succ fuel ih =>
    rintro k ⟨span, kind, cs⟩ hs hh
    rw [expansion]
    split
    · rfl
    · obtain ⟨hre, hcs⟩ := rewriteNode_of_noSplice hs
      rcases hr : rewriteNode generate (.node span kind cs) with ⟨e', errs⟩
      rw [hr] at hre
      subst hre
      simp only [Option.isSome_map']
      refine expandChildren_isSome (fun c hc k' => ih (noSplice_of_mem hcs (mem_of_mem_walked hc)) ?_) k
      have := height_le_heights (mem_of_mem_walked hc)
      simp only [height] at hh
      omega

/-! ## Expansion keeps the originals -/

mutual
/-- The tree with each `MacroExpansion` node taken back to its original. -/
def unexpand : Expr → Expr
  | .node s .macroExpansion cs => (unexpandAll cs).headD (.node s .macroExpansion [])
  | .node s k cs => .node s k (unexpandAll cs)

/-- `unexpand` on each tree of a list. -/
def unexpandAll : List Expr → List Expr
  | [] => []
  | c :: cs => unexpand c :: unexpandAll cs
end

/-- A `MacroExpansion` node that `replace_expr` makes goes back to the node it replaced. -/
theorem unexpand_expandedSite (result : Except (Error U) Expr) (site : Expr) :
    unexpand (expandedSite result site) = unexpand site := by
  cases result <;> rfl

theorem unexpand_node_of_unexpandAll (s : Span) (k : Node) {cs ts : List Expr}
    (h : unexpandAll ts = unexpandAll cs) : unexpand (.node s k ts) = unexpand (.node s k cs) := by
  cases k <;> simp only [unexpand, h]

theorem unexpandAll_of_forall₂ (pre : List Expr) {cs ts : List Expr}
    (h : List.Forall₂ (fun c t => unexpand t = unexpand c) cs ts) :
    unexpandAll (pre ++ ts) = unexpandAll (pre ++ cs) := by
  induction pre with
  | nil =>
    induction h with
    | nil => rfl
    | cons hct _ ih => simp only [List.nil_append, unexpandAll, hct] at ih ⊢; rw [ih]
  | cons p pre ih => rw [List.cons_append, List.cons_append, unexpandAll, unexpandAll, ih]

/-- Expansion only wraps the calls it expands, each kept as the original of its
`MacroExpansion` node: on a tree in which no derive generates bindings, taking those nodes back to
their originals gives the tree back. -/
theorem unexpand_expansion (env : MacroEnv M)
    (generate : Attribute → TypeBinding → Except (Error U) (List ValueBinding))
    (outcome : Nat → Except (Error U) Expr) {fuel : Nat} :
    ∀ {k : Nat} {e : Expr} {x : Expansion U}, noSplice generate e = true →
      expansion env generate outcome fuel k e = some x → unexpand x.tree = unexpand e := by
  induction fuel with
  | zero => intro _ _ _ _ h; simp [expansion] at h
  | succ fuel ih =>
    intro k e x hs h
    by_cases hsite : (macroCall? env e).isSome
    · rw [expansion_succ_of_site h hsite]
      exact unexpand_expandedSite _ _
    · obtain ⟨span, kind, cs, _, ts, _, _, hr, hts, rfl⟩ := expansion_succ_of_not_site h hsite
      rcases e with ⟨s0, k0, cs0⟩
      obtain ⟨hre, hcs⟩ := rewriteNode_of_noSplice hs
      rw [hr] at hre
      obtain ⟨rfl, rfl, rfl⟩ := Expr.node.inj hre
      refine unexpand_node_of_unexpandAll _ _ ?_
      conv_rhs => rw [← splitWalked_append kind cs]
      exact unexpandAll_of_forall₂ _ (((List.forall₂_and_left _ _).2
        ⟨fun c hc => noSplice_of_mem hcs (mem_of_mem_walked hc), expandChildren_forall₂ hts⟩).imp
          fun _ _ ⟨hsc, _, _, hx, ht⟩ => ht ▸ ih hsc hx)

/-! ## The expansion meets the contract -/

/-- The node `replace_expr` puts in place of a call is the one the contract asks for. -/
theorem expandedSite_eq (result : Except (Error U) Expr) (e : Expr) :
    expandedSite result e = expandedAt result e := by
  rcases e with ⟨s, k, cs⟩
  rcases result with _ | ⟨s', k', cs'⟩ <;> rfl

theorem isSome_macroName? (id : String) : (macroName? id).isSome = ['!'].isSuffixOf id.data := by
  have hsuffix : ['!'] <:+ id.data ↔ id.data.getLast? = some '!' := by
    rw [List.getLast?_eq_some_iff]
    exact ⟨fun ⟨t, ht⟩ => ⟨t, ht.symm⟩, fun ⟨t, ht⟩ => ⟨t, ht.symm⟩⟩
  rw [Bool.eq_iff_iff, List.isSuffixOf_iff_suffix, hsuffix, macroName?]
  split <;> simp_all

/-- The error the visitor pushes on a call `n!` with implicit arguments is the contract's. -/
theorem implicitArgsError?_toList (e : Expr) :
    ((implicitArgsError? e).toList : List (SpannedError U)) = implicitArgsErrors e := by
  rcases e with ⟨s, kind, cs⟩
  rcases kind with _ | n | _ | _ | _ | _ | _ <;> rcases cs with _ | ⟨⟨s', k', cs'⟩, cs⟩ <;>
    try rcases k' with _ | _ | _ | _ | _ | _ | _
  all_goals try rfl
  simp only [implicitArgsError?, callee?, implicitArgsErrors, Option.some_bind,
    isSome_macroName?, implicitArgsMessage, and_comm]
  split_ifs <;> rfl

theorem find?_derive (attributes : List Attribute) :
    attributes.find? (·.name == "derive") = firstDerive attributes := by
  induction attributes with
  | nil => rfl
  | cons a as ih => by_cases h : a.name = "derive" <;> simp [firstDerive, h, ih]

/-- `find` on the attributes of a binding gives its first `derive`. -/
theorem derived_eq (generate : Attribute → TypeBinding → Except (Error U) (List ValueBinding))
    (bind : TypeBinding) :
    derived generate bind = (firstDerive bind.attributes).map (generate · bind) := by
  rw [derived, find?_derive]

/-- The bindings the visitor splices in, and the errors it pushes, are the contract's. -/
theorem deriveBindings_contract
    (generate : Attribute → TypeBinding → Except (Error U) (List ValueBinding))
    (binds : List TypeBinding) :
    generatedBindings generate binds = groupBindings generate binds ∧
      deriveFailures generate binds = groupErrors generate binds := by
  induction binds with
  | nil => exact ⟨rfl, rfl⟩
  | cons bind binds ih =>
    simp only [generatedBindings, deriveFailures, groupBindings, groupErrors, List.flatMap_cons,
      List.filterMap_cons] at ih ⊢
    rw [← ih.1, ← ih.2, derived_eq, deriveOf]
    rcases firstDerive bind.attributes with _ | d
    · exact ⟨rfl, rfl⟩
    · simp only [Option.map_some']
      rcases generate d bind <;> exact ⟨rfl, rfl⟩

theorem spliceBody_eq (generated : List ValueBinding) (body : Expr) :
    spliceBody generated body = derivedBody generated body := by
  cases generated <;> rfl

theorem failingSites_append (outcome : Nat → Except (Error U) Expr) (k : Nat) (s t : List Span) :
    failingSites outcome k (s ++ t) = failingSites outcome k s ++ failingSites outcome (k + s.length) t := by
  simp [failingSites, List.enumFrom_append]

theorem failingSites_singleton (outcome : Nat → Except (Error U) Expr) (k : Nat) (span : Span) :
    failingSites outcome k [span] = (siteError (outcome k) span).toList := by
  simp only [failingSites, List.enumFrom_cons, List.enumFrom_nil, List.filterMap_cons,
    List.filterMap_nil]
  cases siteError (outcome k) span <;> rfl

/-- The one-pass expansion of a tree whose calls are numbered from `k`, as the contract counts:
the failures of the calls' futures, and the number of calls. -/
def Expansion.toExpected (outcome : Nat → Except (Error U) Expr) (k : Nat) (x : Expansion U) :
    Expected U Expr :=
  ⟨x.tree, x.errors, failingSites outcome k x.sites, x.sites.length⟩

theorem expandChildren_expected (outcome : Nat → Except (Error U) Expr)
    {expand : Nat → Expr → Option (Expansion U)} {expect : Nat → Expr → Option (Expected U Expr)}
    (h : ∀ k e, (expand k e).map (Expansion.toExpected outcome k) = expect k e) :
    ∀ (k : Nat) (cs : List Expr), (expandChildren expand k cs).map (fun (ts, errs, sites) =>
      (⟨ts, errs, failingSites outcome k sites, sites.length⟩ : Expected U (List Expr))) =
        expectedList expect k cs
  | _, [] => rfl
  | k, c :: cs => by
    rw [expandChildren, expectedList, ← h k c]
    rcases expand k c with _ | x
    · rfl
    · rw [Option.some_bind, Option.map_some', Option.some_bind, Expansion.toExpected,
        ← expandChildren_expected outcome h (k + x.sites.length) cs]
      rcases expandChildren expand (k + x.sites.length) cs with _ | ⟨ts, errs, sites⟩
      · rfl
      · simp [failingSites_append]

/-- The one-pass expansion is the expansion of the contract: the same tree, the same errors on the
way, and the failures of the same calls. -/
theorem expansion_expected (env : MacroEnv M)
    (generate : Attribute → TypeBinding → Except (Error U) (List ValueBinding))
    (outcome : Nat → Except (Error U) Expr) : ∀ (fuel k : Nat) (e : Expr),
      (expansion env generate outcome fuel k e).map (Expansion.toExpected outcome k) =
        expected env generate outcome fuel k e
  | 0, _, _ => rfl
  | fuel + 1, k, e => by
    have hlist := expandChildren_expected outcome (expansion_expected env generate outcome fuel) k
    rw [expansion, expected.eq_def]
    dsimp only
    rw [isSite_eq]
    split_ifs with hsite
    · simp only [Option.map_some', Expansion.toExpected, expandedSite_eq, implicitArgsError?_toList,
        failingSites_singleton]
      cases outcome k <;> rfl
    · rcases e with ⟨span, kind, cs⟩
      cases kind with
      | typeBindings binds =>
        rcases cs with _ | ⟨body, _ | ⟨c, cs⟩⟩ <;>
          simp only [rewriteNode, splitWalked, List.nil_append, Option.map_map, ← hlist,
            Function.comp_def, Expansion.toExpected, deriveBindings_contract, spliceBody_eq,
            implicitArgsError?_toList, implicitArgsErrors]
      | macroExpansion =>
        rcases cs with _ | ⟨original, cs⟩ <;>
          simp only [rewriteNode, splitWalked, List.nil_append, List.singleton_append,
            Option.map_map, ← hlist, Function.comp_def, Expansion.toExpected,
            implicitArgsError?_toList, implicitArgsErrors]
      | _ =>
        simp only [rewriteNode, splitWalked, List.nil_append, Option.map_map, ← hlist,
          Function.comp_def, Expansion.toExpected, implicitArgsError?_toList]

end

end embed_lang.macros
