-- `get_binding` and `get_metadata_` on the rest of a name that `get_global` leaves.
-- `get_binding` walks the fields of the global's record types and the `Data` fields of its
-- value in step; `get_metadata_` walks the nested `metadata.module` maps. Both split the rest
-- on `.`, but only `get_binding` takes a parenthesised operator out of its parentheses.
import EmbedLang.GetGlobal
import Mathlib.Data.String.Basic
import Mathlib.Data.List.Forall2

namespace embed_lang.query

open embed_lang.symbol

/-! ## Types, values and errors -/

/-- `resolve::remove_aliases`: the type behind any number of aliases. -/
def removeAliases : Typ → Typ
  | .aliased _ typ => removeAliases typ
  | typ => typ

theorem removeAliases_ne_aliased (name : String) (typ' : Typ) :
    ∀ typ, removeAliases typ ≠ .aliased name typ'
  | .aliased _ typ => removeAliases_ne_aliased name typ' typ
  | .record _ | .variant _ | .other _ _ => nofun

/-- `row_iter`: the fields of a record type, or the constructors of a variant type, in order. -/
def rowIter : Typ → List (String × Typ)
  | .record fields => fields
  | .variant ctors => ctors
  | _ => []

/-- The `i`-th field of a `Data` value. -/
def Value.field (value : Value) (i : Nat) : Value :=
  match value with
  | .data _ fields => fields.getD i default
  | _ => default

/-- `vm::Error`, as `get_binding` and `get_metadata` raise it. -/
inductive VmError
  | undefinedBinding (name : String)
  | undefinedField (typ : Typ) (field : String)
  | message (text : String)
  | metadataDoesNotExist (name : String)

/-- `ast::is_operator_char`: the characters operators are made of. -/
def isOperatorChar (c : Char) : Bool := "!#$%&*+-./<=>?@\\^|~:".data.contains c

/-- The message of `get_binding`'s error on a segment that is an operator. -/
def operatorFieldMessage : String :=
  "Operators cannot be used as fields directly. To access an operator field, enclose the " ++
    "operator with parentheses before passing it in. (test.(+) instead of test.+)"

/-- The panic of `data.get_variant(index).unwrap()` on an index past the fields. -/
def unwrapNone : String := "called `Option::unwrap()` on a `None` value"

/-- The panic of `ice!` on a value that is no `Data`. -/
def unexpectedValue : String := "Unexpected value"

/-! ## The walks -/

/-- The row entry, numbered, of the field `name`. -/
def fieldNamed (name : String) (entry : Nat × (String × Typ)) : Bool := entry.2.1 == name

/-- The field a segment of the rest names: the segment without one pair of enclosing
parentheses, or none for an operator that is not enclosed. -/
def fieldSegment (fieldName : List Char) : Option (List Char) :=
  if fieldName.head? = some '(' ∧ fieldName.getLast? = some ')' then
    some (fieldName.drop 1).dropLast
  else if fieldName.any isOperatorChar then none
  else some fieldName

/-- One turn of `get_binding`'s loop on the segment `fieldName`, from `typ` and `value`: the type
and value of the field, an error that ends the loop, or a panic. -/
def bindingStep (typ : Typ) (value : Value) (fieldName : List Char) :
    Except String (Except VmError (Typ × Value)) :=
  match fieldSegment fieldName with
  | none => .ok (.error (.message operatorFieldMessage))
  | some fieldName =>
    let typ := removeAliases typ
    match (rowIter typ).enum.find? (fieldNamed ⟨fieldName⟩) with
    | none => .ok (.error (.undefinedField typ ⟨fieldName⟩))
    | some (index, field) =>
      match value with
      | .data _ fields =>
        match fields[index]? with
        | some value => .ok (.ok (field.2, value))
        | none => .error unwrapNone
      | _ => .error unexpectedValue

/-- `get_binding`'s loop over the segments, from `typ` and `value`. -/
def walkFields : Typ → Value → List (List Char) → Except String (Except VmError (Value × Typ))
  | typ, value, [] => .ok (.ok (value, typ))
  | typ, value, fieldName :: fieldNames =>
    match bindingStep typ value fieldName with
    | .error e => .error e
    | .ok (.error e) => .ok (.error e)
    | .ok (.ok (typ, value)) => walkFields typ value fieldNames

/-- `CompilerDatabase::get_binding`, over the answers of the `global` query. A panic is an
`error`; the `Result` the method returns is inside. -/
def getBinding (global : String → Option Global) (name : String) :
    Except String (Except VmError (Value × Typ)) :=
  match getGlobal global name with
  | .error e => .error e
  | .ok none => .ok (.error (.undefinedBinding name))
  | .ok (some (remainingFields, g)) =>
    if remainingFields.isEmpty then .ok (.ok (g.value, g.typ))
    else walkFields g.typ g.value (Name.components remainingFields.data)

/-- `CompilerDatabase::get_metadata_`. -/
def getMetadata_ (global : String → Option Global) (nameStr : String) :
    Except String (Option Metadata) :=
  match getGlobal global nameStr with
  | .error e => .error e
  | .ok none => .ok none
  | .ok (some (remaining, g)) =>
    .ok ((Name.components remaining.data).foldlM
      (fun metadata fieldName => metadata.module.lookup ⟨fieldName⟩) g.metadata)

/-- `CompilerDatabase::get_metadata`. -/
def getMetadata (global : String → Option Global) (nameStr : String) :
    Except String (Except VmError Metadata) :=
  (getMetadata_ global nameStr).map fun metadata =>
    match metadata with
    | some metadata => .ok metadata
    | none => .error (.metadataDoesNotExist nameStr)

/-! ## Fields of records -/

/-- The position of the first field named `f` in a row of fields, with its type. -/
def fieldIndex (f : String) : List (String × Typ) → Option (Nat × Typ)
  | [] => none
  | (name, typ) :: fields =>
    if name = f then some (0, typ) else (fieldIndex f fields).map fun (i, typ) => (i + 1, typ)

/-- The walk along the fields `fs` from `value : typ` that `get_binding` is read as: the aliases
of each type are removed before its field is looked up by name, and the first field missing is
an `UndefinedField` at the type with its aliases removed. -/
def followFields : Typ → Value → List String → Except VmError (Value × Typ)
  | typ, value, [] => .ok (value, typ)
  | typ, value, f :: fs =>
    match removeAliases typ with
    | .record fields =>
      match fieldIndex f fields with
      | some (i, typ) => followFields typ (value.field i) fs
      | none => .error (.undefinedField (.record fields) f)
    | typ => .error (.undefinedField typ f)

/-- `value : typ` is well formed along the fields `fs`: no type reached before a field is a
variant type, and each record type reached holds a `Data` value with one value per field. -/
def FitsAlong : Typ → Value → List String → Prop
  | _, _, [] => True
  | typ, value, f :: fs =>
    match removeAliases typ with
    | .record fields => ∃ tag vs, value = .data tag vs ∧ vs.length = fields.length ∧
        ∀ i typ, fieldIndex f fields = some (i, typ) → FitsAlong typ (vs.getD i default) fs
    | .variant _ => False
    | _ => True

/-- A field name with no parenthesis and no operator character. -/
def Identifier (f : String) : Prop := ∀ c ∈ f.data, isOperatorChar c = false ∧ c ≠ '(' ∧ c ≠ ')'

theorem fieldSegment_identifier {f : String} (hf : Identifier f) : fieldSegment f.data = some f.data := by
  have hhead : f.data.head? ≠ some '(' := by
    rcases h : f.data with _ | ⟨c, cs⟩
    · simp
    · have := (hf c (by simp [h])).2.1
      simpa using this
  have hops : f.data.any isOperatorChar = false := by
    simpa using fun c hc => (hf c hc).1
  simp [fieldSegment, hhead, hops]

theorem fieldIndex_lt {f : String} : ∀ {fields : List (String × Typ)} {i : Nat} {typ : Typ},
    fieldIndex f fields = some (i, typ) → i < fields.length
  | (name, _) :: fields, i, typ, h => by
    by_cases hn : name = f
    · simp only [fieldIndex, if_pos hn, Option.some.injEq, Prod.mk.injEq] at h
      simp [← h.1]
    · simp only [fieldIndex, if_neg hn, Option.map_eq_some', Prod.exists, Prod.mk.injEq] at h
      obtain ⟨j, _, hj, rfl, -⟩ := h
      simpa using fieldIndex_lt hj

/-- The search of `get_binding` over the numbered row finds the field that `fieldIndex` finds. -/
theorem find?_enumFrom_fieldNamed (f : String) : ∀ (fields : List (String × Typ)) (n : Nat),
    (fields.enumFrom n).find? (fieldNamed f) =
      (fieldIndex f fields).map fun (i, typ) => (n + i, (f, typ))
  | [], _ => rfl
  | (name, typ) :: fields, n => by
    by_cases hn : name = f
    · simp [fieldIndex, fieldNamed, hn]
    · simp [fieldIndex, fieldNamed, hn, find?_enumFrom_fieldNamed f fields (n + 1), Nat.add_assoc,
        Nat.add_comm 1, Function.comp_def]

/-- Along segments that each name a field of a well formed value, `get_binding`'s loop is the walk
along those fields: it never panics, and keeps the value and the type in step. -/
theorem walkFields_segments {cs : List (List Char)} {fs : List String}
    (hseg : List.Forall₂ (fun c f => fieldSegment c = some f.data) cs fs) :
    ∀ typ value, FitsAlong typ value fs →
      walkFields typ value cs = .ok (followFields typ value fs) := by
  induction hseg with
  | nil => exact fun _ _ _ => rfl
  | @cons c f cs fs hc _ ih =>
    intro typ value hfit
    simp only [walkFields, bindingStep, hc, show (⟨f.data⟩ : String) = f from rfl]
    simp only [FitsAlong] at hfit
    rcases hrem : removeAliases typ with ⟨name, typ'⟩ | fields | ctors | ⟨name, args⟩
    · exact absurd hrem (removeAliases_ne_aliased _ _ _)
    · rw [hrem] at hfit
      obtain ⟨tag, vs, rfl, hlen, hnext⟩ := hfit
      simp only [rowIter, followFields, hrem, List.enum, find?_enumFrom_fieldNamed, Nat.zero_add]
      rcases hfind : fieldIndex f fields with _ | ⟨i, typ'⟩
      · rfl
      · have hi : i < vs.length := hlen ▸ fieldIndex_lt hfind
        have hget : vs.getD i default = vs[i] := by
          rw [List.getD_eq_getElem?_getD, List.getElem?_eq_getElem hi, Option.getD_some]
        simp only [Option.map_some', List.getElem?_eq_getElem hi, Value.field, hget]
        exact ih _ _ (hget ▸ hnext i typ' hfind)
    · rw [hrem] at hfit
      exact hfit.elim
    · simp [rowIter, followFields, hrem]

/-- Along identifier fields of a well formed value, `get_binding`'s loop is the walk along those
fields: it never panics, and keeps the value and the type in step. -/
theorem walkFields_followFields (typ : Typ) (value : Value) (fs : List String)
    (hid : ∀ f ∈ fs, Identifier f) (hfit : FitsAlong typ value fs) :
    walkFields typ value (fs.map String.data) = .ok (followFields typ value fs) :=
  walkFields_segments (List.forall₂_map_left_iff.2 (List.forall₂_same.2 fun f hf =>
    fieldSegment_identifier (hid f hf))) typ value hfit

/-- `get_binding` on a name with a non-empty rest after its global: the loop over the rest's
segments, from the global's type and value. -/
theorem getBinding_of_getGlobal {global : String → Option Global} {s r : String} {g : Global}
    (hget : getGlobal global s = .ok (some (r, g))) (hr : r ≠ "") :
    getBinding global s = walkFields g.typ g.value (Name.components r.data) := by
  have hempty : r.isEmpty = false := by
    cases h : r.isEmpty
    · rfl
    · exact absurd ((String.isEmpty_iff r).1 h) hr
  simp only [getBinding, hget, hempty, Bool.false_eq_true, if_false]

/-- `get_binding` on a name whose rest after its global is a path of identifier fields through a
well formed value: the value and the type the fields lead to, or `UndefinedField` at the first
field missing, at its type with the aliases removed. It never panics. -/
theorem getBinding_fields (global : String → Option Global) (s r : String) (g : Global)
    (fs : List String) (hget : getGlobal global s = .ok (some (r, g))) (hr : r ≠ "")
    (hfs : Name.components r.data = fs.map String.data) (hid : ∀ f ∈ fs, Identifier f)
    (hfit : FitsAlong g.typ g.value fs) :
    getBinding global s = .ok (followFields g.typ g.value fs) := by
  rw [getBinding_of_getGlobal hget hr, hfs]
  exact walkFields_followFields _ _ _ hid hfit

/-- The field `x` of a record global `m`: its value `1`, of type `Int`. -/
theorem getBinding_fields_of_record :
    let g : Global := ⟨"m", .record [("x", .other "Int" [])], ⟨[]⟩, .data 0 [.other "1"]⟩
    let global (name : String) : Option Global := if name = "m" then some g else none
    getGlobal global "m.x" = .ok (some ("x", g)) ∧ "x" ≠ "" ∧
      Name.components "x".data = ["x"].map String.data ∧ (∀ f ∈ ["x"], Identifier f) ∧
      FitsAlong g.typ g.value ["x"] ∧
      getBinding global "m.x" = .ok (.ok (.other "1", .other "Int" [])) := by
  intro g global
  have hget : getGlobal global "m.x" = .ok (some ("x", g)) := by
    simp [global, getGlobal, findGlobal, Name.module, List.rdropWhile, sliceFrom, byteLen]
    rfl
  have hid : ∀ f ∈ ["x"], Identifier f := by
    intro f hf
    rw [List.mem_singleton.1 hf]
    unfold Identifier
    decide
  have hfit : FitsAlong g.typ g.value ["x"] := ⟨0, [.other "1"], rfl, rfl, fun _ _ _ => trivial⟩
  exact ⟨hget, by decide, by decide, hid, hfit,
    (getBinding_fields global "m.x" "x" g ["x"] hget (by decide) (by decide) hid hfit).trans rfl⟩

/-! ## What `get_binding` does off records -/

/-- A variant global `m` holding `A 5` of `| A Int | B`: the segment `B` finds the constructor
`B` at index 1 of the row and unwraps a field the value does not have; the segment `A` returns
the value's field, with the constructor's type. -/
theorem getBinding_constructor_segment :
    let typ : Typ := .variant [("A", .other "->" [.other "Int" [], .other "T" []]),
      ("B", .other "T" [])]
    let global (name : String) : Option Global :=
      if name = "m" then some ⟨"m", typ, ⟨[]⟩, .data 0 [.other "5"]⟩ else none
    getBinding global "m.B" = .error "called `Option::unwrap()` on a `None` value" ∧
      getBinding global "m.A" =
        .ok (.ok (.other "5", .other "->" [.other "Int" [], .other "T" []])) := by
  intro typ global
  constructor <;>
    simp [global, getBinding, getGlobal, findGlobal, Name.module, List.rdropWhile, sliceFrom,
      byteLen] <;> rfl

/-- A record global `m` with the operator fields `.` and `+.+`: `get_global` leaves the rest
`(.)` for `m.(.)`, on which `get_binding` looks up a field `(`; on `m.(+.+)` it rejects the
operator as not parenthesised. -/
theorem getBinding_parenthesised_dot :
    let typ : Typ := .record [(".", .other "Int" []), ("+.+", .other "Int" [])]
    let global (name : String) : Option Global :=
      if name = "m" then some ⟨"m", typ, ⟨[]⟩, .data 0 [.other "1", .other "2"]⟩ else none
    (getGlobal global "m.(.)").map (·.map Prod.fst) = .ok (some "(.)") ∧
      getBinding global "m.(.)" = .ok (.error (.undefinedField typ "(")) ∧
      getBinding global "m.(+.+)" = .ok (.error (.message operatorFieldMessage)) := by
  intro typ global
  refine ⟨?_, ?_, ?_⟩ <;>
    simp [global, getBinding, getGlobal, findGlobal, Name.module, List.rdropWhile, sliceFrom,
      byteLen] <;> rfl

/-! ## Operator fields -/

/-- A segment written as `get_binding`'s error asks a field to be: an identifier as it is, or any
field name in one pair of parentheses. -/
def Spells (segment : List Char) (f : String) : Prop :=
  (Identifier f ∧ segment = f.data) ∨ segment = '(' :: f.data ++ [')']

theorem fieldSegment_of_spells {c : List Char} {f : String} (h : Spells c f) :
    fieldSegment c = some f.data := by
  rcases h with ⟨hf, rfl⟩ | rfl
  · exact fieldSegment_identifier hf
  · simp [fieldSegment, List.getLast?_cons]

/-- `get_binding` on a name whose rest after its global has segments that each spell a field of
`fs`, operators in parentheses included, through a well formed value: the value and the type the
fields lead to, or `UndefinedField` at the first field missing. It never panics. -/
theorem getBinding_spelled_fields (global : String → Option Global) {s r : String} {g : Global}
    {fs : List String} (hget : getGlobal global s = .ok (some (r, g))) (hr : r ≠ "")
    (hspell : List.Forall₂ Spells (Name.components r.data) fs)
    (hfit : FitsAlong g.typ g.value fs) :
    getBinding global s = .ok (followFields g.typ g.value fs) := by
  rw [getBinding_of_getGlobal hget hr]
  exact walkFields_segments (hspell.imp fun _ _ => fieldSegment_of_spells) _ _ hfit

/-- A record global `m` with a field `+`: `get_binding("m.(+)")` gives its value `1`. -/
theorem getBinding_spelled_fields_of_operator :
    let g : Global := ⟨"m", .record [("+", .other "Int" [])], ⟨[]⟩, .data 0 [.other "1"]⟩
    let global (name : String) : Option Global := if name = "m" then some g else none
    getGlobal global "m.(+)" = .ok (some ("(+)", g)) ∧ "(+)" ≠ "" ∧
      List.Forall₂ Spells (Name.components "(+)".data) ["+"] ∧ FitsAlong g.typ g.value ["+"] ∧
      getBinding global "m.(+)" = .ok (.ok (.other "1", .other "Int" [])) := by
  intro g global
  have hget : getGlobal global "m.(+)" = .ok (some ("(+)", g)) := by
    simp [global, getGlobal, findGlobal, Name.module, List.rdropWhile, sliceFrom, byteLen]
    rfl
  have hspell : List.Forall₂ Spells (Name.components "(+)".data) ["+"] :=
    show List.Forall₂ _ [['(', '+', ')']] ["+"] from .cons (.inr rfl) .nil
  have hfit : FitsAlong g.typ g.value ["+"] := ⟨0, [.other "1"], rfl, rfl, fun _ _ _ => trivial⟩
  exact ⟨hget, by decide, hspell, hfit,
    (getBinding_spelled_fields global hget (by decide) hspell hfit).trans rfl⟩

/-! ## Names after a leading `@` -/

theorem components_dot_cons (l : List Char) :
    Name.components ('.' :: l) = [] :: Name.components l := by
  simp [Name.components, List.splitOn, List.splitOnP_cons]

/-- A type none of whose fields is named `""` has no field `""`. -/
theorem find?_fieldNamed_empty {fields : List (String × Typ)} (h : ∀ f ∈ fields, f.1 ≠ "") :
    fields.enum.find? (fieldNamed "") = none :=
  List.find?_eq_none.2 fun x hx hf =>
    h x.2 (List.snd_mem_of_mem_enum hx) (by simpa [fieldNamed] using hf)

/-- After a leading `@`, no lookup reaches a field. The rest that `get_global` leaves keeps the
`.` before it, so its first segment is empty: `get_binding` fails with `UndefinedField` for a
field `""` of the global's type, and `get_metadata_` finds no metadata, whatever fields the name
goes on to. -/
theorem getBinding_at_fields (global : String → Option Global) {cs : List (List Char)}
    (hcs : Dotted cs) (hat : (joinDots cs).head? ≠ some '@') {k : Nat} {g : Global}
    (hlong : longestGlobal global cs cs.length = some (k, g)) (hk : k < cs.length)
    (hfields : ∀ f ∈ rowIter (removeAliases g.typ), f.1 ≠ "")
    (hmeta : g.metadata.module.lookup "" = none) :
    getBinding global ⟨'@' :: joinDots cs⟩ =
        .ok (.error (.undefinedField (removeAliases g.typ) "")) ∧
      getMetadata_ global ⟨'@' :: joinDots cs⟩ = .ok none := by
  have hget : getGlobal global ⟨'@' :: joinDots cs⟩ =
      .ok (some (⟨'.' :: joinDots (cs.drop k)⟩, g)) := by
    rw [getGlobal_at_joinDots global hcs hat, hlong]
    simp [Nat.ne_of_lt hk]
  constructor
  · rw [getBinding_of_getGlobal hget fun h => List.cons_ne_nil _ _ (congrArg String.data h),
      components_dot_cons]
    simp [walkFields, bindingStep, fieldSegment, find?_fieldNamed_empty hfields]
  · simp [getMetadata_, hget, components_dot_cons, hmeta]

/-- A record global `m` with a field `f`: `get_binding("@m.f")` looks for a field `""`. -/
theorem getBinding_at_fields_of_record :
    let g : Global := ⟨"m", .record [("f", .other "Int" [])], ⟨[("f", ⟨[]⟩)]⟩,
      .data 0 [.other "1"]⟩
    let global (name : String) : Option Global := if name = "m" then some g else none
    let cs := [['m'], ['f']]
    Dotted cs ∧ (joinDots cs).head? ≠ some '@' ∧
      longestGlobal global cs cs.length = some (1, g) ∧ 1 < cs.length ∧
      (∀ f ∈ rowIter (removeAliases g.typ), f.1 ≠ "") ∧ g.metadata.module.lookup "" = none ∧
      (getBinding global ⟨'@' :: joinDots cs⟩ =
          .ok (.error (.undefinedField (removeAliases g.typ) "")) ∧
        getMetadata_ global ⟨'@' :: joinDots cs⟩ = .ok none) := by
  intro g global cs
  have hlong : longestGlobal global cs cs.length = some (1, g) := by
    simp [global, cs, longestGlobal, joinDots]
  have hfields : ∀ f ∈ rowIter (removeAliases g.typ), f.1 ≠ "" := by
    simp [g, removeAliases, rowIter]
  exact ⟨by unfold Dotted; decide, by decide, hlong, by decide, hfields, rfl,
    getBinding_at_fields global (by unfold Dotted; decide) (by decide) hlong (by decide) hfields rfl⟩

/-- A record global `m` with a field `+` that has metadata: `get_binding("m.(+)")` reads the
field `+`, while `get_metadata_("m.(+)")` looks for metadata under `(+)` and finds none. -/
theorem getMetadata_keeps_parentheses :
    let fieldMetadata : Metadata := ⟨[]⟩
    let g : Global := ⟨"m", .record [("+", .other "Int" [])], ⟨[("+", fieldMetadata)]⟩,
      .data 0 [.other "1"]⟩
    let global (name : String) : Option Global := if name = "m" then some g else none
    getBinding global "m.(+)" = .ok (.ok (.other "1", .other "Int" [])) ∧
      getMetadata_ global "m.(+)" = .ok none ∧
      g.metadata.module.lookup "+" = some fieldMetadata := by
  intro fieldMetadata g global
  refine ⟨?_, ?_, rfl⟩ <;>
    simp [global, g, getBinding, getMetadata_, getGlobal, findGlobal, Name.module,
      List.rdropWhile, sliceFrom, byteLen] <;> rfl

end embed_lang.query
