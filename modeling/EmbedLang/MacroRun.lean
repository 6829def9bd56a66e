-- `MacroExpander::run` after the walk: the futures of the registered calls complete in
-- any order, each `then` replaces its node, and `futures_ordered` hands their errors on
-- in the order of the calls. Since the nodes lie apart, the order does not matter.
import EmbedLang.MacroExpansion

namespace embed_lang.macros

open embed_lang.ast

/-- The order in which the futures of a run complete: for `n` futures, some order of
`0, …, n - 1`. `futures_ordered` polls every future, and `wait` returns once all have
completed. -/
structure CompletionOrder where
  order : Nat → List Nat
  perm : ∀ n, (order n).Perm (List.range n)

/-- The thread a macro expansion runs on, as far as the expander reads it: `vm.get_macros()`. -/
structure Thread (M : Type) where
  macros : MacroEnv M

/-- `MacroExpander`: the macros it expands and the errors it has collected. -/
structure MacroExpander (U : ErrorTypes) (M : Type) where
  macros : MacroEnv M
  errors : List (SpannedError U)

section

variable {U : ErrorTypes} {M : Type}

/-! ## The completion of the futures -/

/-- The span of the node at `p`. -/
def spanAt (e : Expr) (p : Path) : Span := ((e.get? p).map Expr.span).getD Span.default

/-- The future of call `k` completing: the `then` of `run` replaces the node at `exprs[k]`,
and `futures_ordered` keeps at `k` the error it reports, at the node's span, which
`replace_expr` keeps. -/
def completeSite (outcome : Nat → Except (Error U) Expr) (exprs : List Path)
    (acc : Expr × List (Option (SpannedError U))) (k : Nat) :
    Expr × List (Option (SpannedError U)) :=
  (acc.1.modifyAt (expandedSite (outcome k)) (exprs.getD k []),
    acc.2.set k (siteError (outcome k) (spanAt acc.1 (exprs.getD k []))))

/-! ## The expander -/

/-- `MacroExpander::new`: the macros of the thread, and no errors. -/
def MacroExpander.new (vm : Thread M) : MacroExpander U M := ⟨vm.macros, []⟩

/-- `MacroExpander::run`: the visitor registers the calls; then their futures complete in
`order`, and `for_each` pushes the errors they report in the order of the calls. -/
def MacroExpander.run (self : MacroExpander U M)
    (generate : Attribute → TypeBinding → Except (Error U) (List ValueBinding))
    (calls : MacroCalls U) (order : CompletionOrder) (fuel : Nat) (expr : Expr) :
    Option (Expr × MacroExpander U M) :=
  (visitExpr self.macros generate calls fuel [] expr ⟨self.errors, []⟩).map fun (e, st) =>
    let n := st.exprs.length
    let done := (order.order n).foldl (completeSite calls.outcome st.exprs)
      (e, List.replicate n none)
    (done.1, { self with errors := st.errors ++ done.2.filterMap id })

/-- `MacroExpander::finish`. -/
def MacroExpander.finish (self : MacroExpander U M) : Except (List (SpannedError U)) Unit :=
  if self.errors.isEmpty then .ok () else .error self.errors

/-- `MacroEnv::run`: a new expander on the thread runs on `expr`, then finishes. The expander
takes the macros of the thread; the `MacroEnv` it is called on is not read. -/
def MacroEnv.run (_self : MacroEnv M) (vm : Thread M)
    (generate : Attribute → TypeBinding → Except (Error U) (List ValueBinding))
    (calls : MacroCalls U) (order : CompletionOrder) (fuel : Nat) (expr : Expr) :
    Option (Expr × Except (List (SpannedError U)) Unit) :=
  ((MacroExpander.new vm).run generate calls order fuel expr).map fun (e, ex) => (e, ex.finish)

/-! ## Any order of completion gives the same result -/

theorem get?_fill_of_apart (outcome : Nat → Except (Error U) Expr) {p : Path} :
    ∀ (qs : List Path) (k : Nat) (e : Expr), (∀ q ∈ qs, Apart p q) →
      (fill outcome k qs e).get? p = e.get? p
  | [], _, _, _ => rfl
  | q :: qs, k, e, h => by
    rw [fill, get?_fill_of_apart outcome qs (k + 1) _ fun q' hq' => h q' (List.mem_cons_of_mem _ hq'),
      Expr.get?_modifyAt_of_apart _ (h q (List.mem_cons_self _ _))]

theorem apart_getD {exprs : List Path} (h : exprs.Pairwise Apart) {j k : Nat}
    (hj : j < exprs.length) (hk : k < exprs.length) (hjk : j ≠ k) :
    Apart (exprs.getD j []) (exprs.getD k []) := by
  simp only [List.getD_eq_getElem?_getD, List.getElem?_eq_getElem hj, List.getElem?_eq_getElem hk,
    Option.getD_some]
  rcases Nat.lt_or_gt_of_ne hjk with hlt | hlt
  · exact List.pairwise_iff_getElem.1 h j k hj hk hlt
  · exact (List.pairwise_iff_getElem.1 h k j hk hj hlt).symm

/-- The completions of two calls whose nodes lie apart commute. -/
theorem completeSite_comm (outcome : Nat → Except (Error U) Expr) (exprs : List Path)
    {j k : Nat} (h : Apart (exprs.getD j []) (exprs.getD k [])) (hjk : j ≠ k)
    (acc : Expr × List (Option (SpannedError U))) :
    completeSite outcome exprs (completeSite outcome exprs acc k) j =
      completeSite outcome exprs (completeSite outcome exprs acc j) k := by
  simp only [completeSite, spanAt, Expr.get?_modifyAt_of_apart _ h, Expr.get?_modifyAt_of_apart _ h.symm,
    Expr.modifyAt_comm _ _ h, List.set_comm _ _ _ hjk]

theorem foldl_completeSite_perm (outcome : Nat → Except (Error U) Expr) {exprs : List Path}
    (h : exprs.Pairwise Apart) {order : List Nat} (horder : order.Perm (List.range exprs.length))
    (acc : Expr × List (Option (SpannedError U))) :
    order.foldl (completeSite outcome exprs) acc =
      (List.range exprs.length).foldl (completeSite outcome exprs) acc := by
  refine horder.foldl_eq' (fun j hj k hk acc => ?_) acc
  have hj' := List.mem_range.1 (horder.mem_iff.1 hj)
  have hk' := List.mem_range.1 (horder.mem_iff.1 hk)
  by_cases hjk : j = k
  · subst hjk; rfl
  · exact (completeSite_comm outcome exprs (apart_getD h hk' hj' (Ne.symm hjk)) (Ne.symm hjk) acc)

/-- Completed in the order of the calls, the futures fill the nodes in that order, and each
reports its error at the span its node has after the walk. -/
theorem foldl_completeSite_range (outcome : Nat → Except (Error U) Expr) {exprs : List Path}
    (h : exprs.Pairwise Apart) (e : Expr) : ∀ m ≤ exprs.length,
      (List.range m).foldl (completeSite outcome exprs) (e, List.replicate exprs.length none) =
        (fill outcome 0 (exprs.take m) e,
          (List.range m).map (fun k => siteError (outcome k) (spanAt e (exprs.getD k []))) ++
            List.replicate (exprs.length - m) none)
  | 0, _ => by simp [fill]
  | m + 1, hm => by
    have hget : exprs[m]? = some (exprs.getD m []) := by
      simp [List.getD_eq_getElem?_getD, List.getElem?_eq_getElem (show m < exprs.length by omega)]
    have hfar : ∀ q ∈ exprs.take m, Apart (exprs.getD m []) q := by
      intro q hq
      obtain ⟨i, hi, rfl⟩ := List.getElem_of_mem hq
      rw [List.length_take] at hi
      have := apart_getD h (show m < exprs.length by omega) (show i < exprs.length by omega)
        (show m ≠ i by omega)
      simpa [List.getD_eq_getElem?_getD, List.getElem?_eq_getElem (show i < exprs.length by omega)]
        using this
    have hrep : exprs.length - m = (exprs.length - (m + 1)) + 1 := by omega
    rw [List.range_succ, List.foldl_append, foldl_completeSite_range outcome h e m (by omega)]
    simp only [List.foldl_cons, List.foldl_nil, completeSite, List.take_succ, hget, Option.toList_some,
      fill_append, List.length_take, Nat.min_eq_left (show m ≤ exprs.length by omega), Nat.zero_add,
      fill, spanAt, get?_fill_of_apart outcome _ _ _ hfar]
    rw [List.set_append_right _ _ (by simp), hrep, List.replicate_succ]
    simp

/-! ## The laws of a run -/

/-- Whatever the order of completion, the futures fill the registered nodes in the order of
the calls, and report the failures in that order. -/
theorem complete_eq (outcome : Nat → Except (Error U) Expr) {exprs : List Path}
    (h : exprs.Pairwise Apart) (order : CompletionOrder) (e : Expr) :
    (order.order exprs.length).foldl (completeSite outcome exprs) (e, List.replicate exprs.length none) =
      (fill outcome 0 exprs e,
        (List.range exprs.length).map fun k => siteError (outcome k) (spanAt e (exprs.getD k []))) := by
  rw [foldl_completeSite_perm outcome h (order.perm _), foldl_completeSite_range outcome h e _ le_rfl]
  simp

theorem filterMap_siteError (outcome : Nat → Except (Error U) Expr) {qs : List Path} {e : Expr}
    {sites : List Span} (h : qs.map (fun q => (e.get? q).map Expr.span) = sites.map some) :
    ((List.range qs.length).map fun k => siteError (outcome k) (spanAt e (qs.getD k []))).filterMap id =
      failingSites outcome 0 sites := by
  have hlen : qs.length = sites.length := by simpa using congrArg List.length h
  rw [failingSites, ← Function.id_comp (fun (p : Nat × Span) => siteError (outcome p.1) p.2),
    ← List.filterMap_map]
  congr 1
  refine List.ext_getElem (by simp [hlen]) fun n h1 h2 => ?_
  have hq : n < qs.length := by simpa using h1
  have hs : n < sites.length := hlen ▸ hq
  have hn : (e.get? (qs.getD n [])).map Expr.span = some sites[n] := by
    have := congrArg (·[n]?) h
    simp only [List.getElem?_map, List.getElem?_eq_getElem hq, List.getElem?_eq_getElem hs,
      Option.map_some', Option.some.injEq] at this
    simpa [List.getD_eq_getElem?_getD, List.getElem?_eq_getElem hq] using this
  simp only [List.getElem_map, List.getElem_range, List.getElem_enumFrom, Nat.zero_add, spanAt, hn,
    Option.getD_some]

theorem run_of_agrees {self : MacroExpander U M}
    {generate : Attribute → TypeBinding → Except (Error U) (List ValueBinding)}
    {calls : MacroCalls U} (order : CompletionOrder) {fuel : Nat} {expr e : Expr}
    {st : VisitState U} {x : Expansion U} {qs : List Path}
    (hv : visitExpr self.macros generate calls fuel [] expr ⟨self.errors, []⟩ = some (e, st))
    (a : Agrees calls [] ⟨self.errors, []⟩ e st x qs) :
    self.run generate calls order fuel expr =
      some (x.tree, { self with errors := st.errors ++ failingSites calls.outcome 0 x.sites }) := by
  have hq : st.exprs = qs := by simpa using a.exprs
  subst hq
  have hf := a.filled
  simp only [List.length_nil] at hf
  simp only [MacroExpander.run, hv, Option.map_some', complete_eq calls.outcome a.apart order e, hf,
    filterMap_siteError calls.outcome a.sites]


/-- A run and the one-pass expansion both run out of fuel, or the run ends in the expanded tree,
with the errors of the walk and then one for each failing future. -/
theorem run_cases (self : MacroExpander U M)
    (generate : Attribute → TypeBinding → Except (Error U) (List ValueBinding))
    (calls : MacroCalls U) (order : CompletionOrder) (fuel : Nat) (expr : Expr) :
    (self.run generate calls order fuel expr = none ∧
        expansion self.macros generate calls.outcome fuel 0 expr = none) ∨
      ∃ (x : Expansion U) (st : VisitState U), expansion self.macros generate calls.outcome fuel 0 expr = some x ∧
        self.run generate calls order fuel expr =
          some (x.tree, { self with errors := st.errors ++ failingSites calls.outcome 0 x.sites }) ∧
        ((∀ k, calls.pushed k = []) → st.errors = self.errors ++ x.errors) := by
  rcases (visitExpr_simulates self.macros generate calls fuel [] expr ⟨self.errors, []⟩).elim with
    ⟨hv, hx⟩ | ⟨e, st, x, qs, hv, hx, a⟩
  · exact .inl ⟨by simp [MacroExpander.run, hv], hx⟩
  · exact .inr ⟨x, st, hx, run_of_agrees order hv a, a.errors⟩

/-- On a tree in which no derive generates bindings, `MacroExpander::run` returns once its fuel
reaches the tree's height. -/
theorem run_isSome (self : MacroExpander U M)
    (generate : Attribute → TypeBinding → Except (Error U) (List ValueBinding))
    (calls : MacroCalls U) (order : CompletionOrder) {fuel : Nat} {expr : Expr}
    (h : noSplice generate expr = true) (hfuel : height expr ≤ fuel) :
    (self.run generate calls order fuel expr).isSome := by
  rcases run_cases self generate calls order fuel expr with ⟨-, hx⟩ | ⟨x, st, -, hrun, -⟩
  · have : (expansion self.macros generate calls.outcome fuel 0 expr).isSome :=
      expansion_isSome self.macros generate calls.outcome h hfuel
    rw [hx] at this
    cases this
  · rw [hrun]
    rfl

/-- `MacroExpander::run` loses nothing: on a tree in which no derive generates bindings, it
returns once its fuel reaches the tree's height, whatever its futures give and in whatever order
they complete, and taking each `MacroExpansion` node of the result back to its original gives
the tree back. -/
theorem run_unexpand (self : MacroExpander U M)
    (generate : Attribute → TypeBinding → Except (Error U) (List ValueBinding))
    (calls : MacroCalls U) (order : CompletionOrder) {fuel : Nat} {expr : Expr}
    (h : noSplice generate expr = true) (hfuel : height expr ≤ fuel) :
    (self.run generate calls order fuel expr).map (fun r => unexpand r.1) =
      some (unexpand expr) := by
  rcases run_cases self generate calls order fuel expr with ⟨hnone, -⟩ | ⟨x, st, hx, hrun, -⟩
  · have := run_isSome self generate calls order h hfuel
    rw [hnone] at this
    cases this
  · rw [hrun, Option.map_some', unexpand_expansion self.macros generate calls.outcome h hx]

/-- `MacroExpander::run` expands a tree as the contract says, whatever its futures give and in
whatever order they complete: it returns the tree of the contract's expansion exactly when that
expansion returns one, and no site is left outside the `MacroExpansion` nodes of what it
returns. -/
theorem run_expands (self : MacroExpander U M)
    (generate : Attribute → TypeBinding → Except (Error U) (List ValueBinding))
    (calls : MacroCalls U) (order : CompletionOrder) (fuel : Nat) (expr : Expr) :
    (self.run generate calls order fuel expr).map Prod.fst =
        (expected self.macros generate calls.outcome fuel 0 expr).map Expected.tree ∧
      ∀ r ∈ self.run generate calls order fuel expr, liveCall self.macros r.1 = false := by
  rw [← expansion_expected]
  rcases run_cases self generate calls order fuel expr with ⟨h1, h2⟩ | ⟨x, st, h1, h2, -⟩
  · simp [h1, h2]
  · refine ⟨by simp [h1, h2, Expansion.toExpected], fun r hr => ?_⟩
    rw [h2, Option.mem_def, Option.some.injEq] at hr
    rw [← hr]
    exact liveCall_expansion _ _ _ h1

/-- The result of `MacroEnv::run`, when no `expand` pushes errors itself, is what the contract's
errors call for: `Err` with the errors of the walk in its order and then the failures of the
sites in their order, whatever order the futures complete in, and `Ok` when there are none. -/
theorem macroEnv_run_errors (menv : MacroEnv M) (vm : Thread M)
    (generate : Attribute → TypeBinding → Except (Error U) (List ValueBinding))
    (calls : MacroCalls U) (order : CompletionOrder) (fuel : Nat) (expr : Expr)
    (hpushed : ∀ k, calls.pushed k = []) :
    (menv.run vm generate calls order fuel expr).map Prod.snd =
      (expected vm.macros generate calls.outcome fuel 0 expr).map Expected.finish := by
  have hm : (MacroExpander.new vm : MacroExpander U M).macros = vm.macros := rfl
  rw [MacroEnv.run, ← hm, ← expansion_expected]
  rcases run_cases (MacroExpander.new vm) generate calls order fuel expr with
    ⟨h1, h2⟩ | ⟨x, st, h1, h2, h3⟩
  · rw [h1, h2]; rfl
  · rw [h2, h1]
    simp [MacroExpander.finish, Expected.finish, Expansion.toExpected, h3 hpushed,
      MacroExpander.new]

/-- A call `import!(x, y)` with an implicit argument, whose future fails: two errors at the
call's span, that of the implicit argument first. -/
theorem macroEnv_run_errors_of_failing_call :
    (∀ k, (⟨fun _ => [], fun _ => .error (.message "no such module")⟩ :
        MacroCalls ErrorTypes.none).pushed k = []) ∧
      (@MacroEnv.run ErrorTypes.none Unit ⟨[]⟩ ⟨⟨[("import", ())]⟩⟩ (fun _ _ => .ok [])
        ⟨fun _ => [], fun _ => .error (.message "no such module")⟩
        ⟨fun n => (List.range n).reverse, fun _ => List.reverse_perm _⟩ 3
        (.node ⟨0, 12⟩ (.app 1) [.node ⟨0, 7⟩ (.ident "import!") [], .node ⟨8, 9⟩ (.other 0) [],
          .node ⟨10, 12⟩ (.other 0) []])).map Prod.snd =
        some (.error [(⟨0, 12⟩, .message implicitArgsMessage),
          (⟨0, 12⟩, .message "no such module")]) :=
  ⟨fun _ => rfl, by rw [macroEnv_run_errors _ _ _ _ _ _ _ fun _ => rfl]; rfl⟩

/-- A call `import!(x)` of a registered macro whose future gives a tree. -/
theorem run_unexpand_of_call :
    let self : MacroExpander ErrorTypes.none Unit := ⟨⟨[("import", ())]⟩, []⟩
    let generate : Attribute → TypeBinding → Except (Error ErrorTypes.none) (List ValueBinding) :=
      fun _ _ => .ok []
    let calls : MacroCalls ErrorTypes.none := ⟨fun _ => [], fun _ => .ok (.node ⟨0, 0⟩ (.other 1) [])⟩
    let order : CompletionOrder := ⟨fun n => List.range n, fun _ => List.Perm.refl _⟩
    let expr : Expr :=
      .node ⟨0, 10⟩ (.app 0) [.node ⟨0, 7⟩ (.ident "import!") [], .node ⟨8, 9⟩ (.other 0) []]
    noSplice generate expr = true ∧ height expr ≤ 2 ∧
      (self.run generate calls order 2 expr).map (fun r => unexpand r.1) =
        some (unexpand expr) :=
  ⟨rfl, by decide, run_unexpand _ _ _ _ rfl (by decide)⟩

end

end embed_lang.macros
