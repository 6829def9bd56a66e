-- `get_global`: the longest prefix of a dotted name, with its leading `@`s trimmed, that
-- names a global, and the rest of the name after it. The rest is cut at a byte offset counted
-- on the untrimmed name, so after a leading `@` it keeps the `.` that separates it.
import EmbedLang.Globals
import Mathlib.Data.List.DropRight

namespace embed_lang.symbol

/-- `Name::module`: the name without its last `.`-separated component and the `.`s before it. -/
def Name.module (name : List Char) : List Char :=
  (name.rdropWhile (· != '.')).rdropWhile (· == '.')

/-- `Name::components`: the `.`-separated components of a name. -/
def Name.components (name : List Char) : List (List Char) := name.splitOn '.'

theorem rdropWhile_append_of_forall {p : Char → Bool} (l c : List Char) (h : ∀ x ∈ c, p x) :
    (l ++ c).rdropWhile p = l.rdropWhile p := by
  simp only [List.rdropWhile, List.reverse_append]
  rw [List.dropWhile_append_of_pos (by simpa using h)]

theorem length_module_lt {name : List Char} (h : name ≠ []) :
    (Name.module name).length < name.length := by
  obtain ⟨l, c, rfl⟩ := List.eq_nil_or_concat name |>.resolve_left h
  have hle : ∀ (p : Char → Bool) (l : List Char), (l.rdropWhile p).length ≤ l.length :=
    fun p l => (List.rdropWhile_prefix p l).length_le
  rw [List.concat_eq_append, Name.module]
  by_cases hc : c = '.'
  · subst hc
    rw [List.rdropWhile_concat_neg (· != '.') l '.' (by decide),
      List.rdropWhile_concat_pos (· == '.') l '.' (by decide)]
    simpa using Nat.lt_succ_of_le (hle _ l)
  · rw [List.rdropWhile_concat_pos (· != '.') l c (by simpa using hc)]
    simpa using Nat.lt_succ_of_le ((hle _ _).trans (hle _ l))

/-- A name whose components have no `.`: its module is empty. -/
theorem module_of_forall_ne (c : List Char) (h : ∀ x ∈ c, x ≠ '.') : Name.module c = [] := by
  have hall : ([] ++ c).rdropWhile (· != '.') = [] :=
    rdropWhile_append_of_forall [] c (by simpa using h)
  rw [List.nil_append] at hall
  rw [Name.module, hall, List.rdropWhile_nil]

/-- The module of `pre ++ d ++ "." ++ c`, where `d` is a non-empty component and `c` a
component, is `pre ++ d`. -/
theorem module_append_dot (pre d c : List Char) (hd : d ≠ []) (hd' : ∀ x ∈ d, x ≠ '.')
    (hc : ∀ x ∈ c, x ≠ '.') : Name.module (pre ++ d ++ '.' :: c) = pre ++ d := by
  unfold Name.module
  rw [show pre ++ d ++ '.' :: c = (pre ++ d ++ ['.']) ++ c by simp,
    rdropWhile_append_of_forall _ _ (by simpa using hc),
    List.rdropWhile_concat_neg (· != '.') _ '.' (by decide),
    List.rdropWhile_concat_pos (· == '.') _ '.' (by decide), List.rdropWhile_eq_self_iff]
  intro hne
  rw [List.getLast_append_of_ne_nil hd]
  simpa using hd' _ (List.getLast_mem hd)

end embed_lang.symbol

namespace embed_lang.query

open embed_lang.symbol

/-! ## Bytes -/

/-- `str::len`: the length of a string in UTF-8 bytes. -/
def byteLen : List Char → Nat
  | [] => 0
  | c :: s => c.utf8Size + byteLen s

@[simp] theorem byteLen_nil : byteLen [] = 0 := rfl

@[simp] theorem byteLen_cons (c : Char) (s : List Char) :
    byteLen (c :: s) = c.utf8Size + byteLen s := rfl

@[simp] theorem byteLen_append (s t : List Char) : byteLen (s ++ t) = byteLen s + byteLen t := by
  induction s with
  | nil => simp
  | cons c s ih => simp [ih, Nat.add_assoc]

@[simp] theorem utf8Size_dot : '.'.utf8Size = 1 := rfl

@[simp] theorem utf8Size_at : '@'.utf8Size = 1 := rfl

/-- `&s[i..]`: what follows the first `i` bytes of `s`. An index inside a char, or past the end,
panics. -/
def sliceFrom : List Char → Nat → Except String (List Char)
  | s, 0 => .ok s
  | [], _ + 1 => .error "byte index is out of range"
  | c :: s, i + 1 =>
    if c.utf8Size ≤ i + 1 then sliceFrom s (i + 1 - c.utf8Size)
    else .error "byte index is not a char boundary"

theorem Char.utf8Size_pos (c : Char) : 0 < c.utf8Size := by
  rcases Char.utf8Size_eq c with h | h | h | h <;> omega

/-- Slicing off the bytes of a prefix leaves what follows it. -/
theorem sliceFrom_append (s t : List Char) : sliceFrom (s ++ t) (byteLen s) = .ok t := by
  induction s with
  | nil => cases t <;> rfl
  | cons c s ih =>
    obtain ⟨i, hi⟩ : ∃ i, c.utf8Size + byteLen s = i + 1 :=
      ⟨c.utf8Size + byteLen s - 1, by have := Char.utf8Size_pos c; omega⟩
    rw [List.cons_append, byteLen_cons, hi, sliceFrom, if_pos (by omega),
      show i + 1 - c.utf8Size = byteLen s by omega, ih]

/-! ## The loop -/

/-- The loop of `get_global`: `module`, then `module.module()` and so on, until one names a
global or the name is empty. `global` is the `global` query, as a function of the name. -/
def findGlobal (global : String → Option Global) : List Char → Option (List Char × Global)
  | [] => none
  | c :: cs =>
    match global ⟨c :: cs⟩ with
    | some g => some (c :: cs, g)
    | none => findGlobal global (Name.module (c :: cs))
termination_by module => module.length
decreasing_by exact length_module_lt (List.cons_ne_nil _ _)

/-- `CompilerDatabase::get_global`: the global its loop finds, and the rest of the name after
the global's name and a byte for the `.`. A panic is an `error`. -/
def getGlobal (global : String → Option Global) (name : String) :
    Except String (Option (String × Global)) :=
  match findGlobal global (name.data.dropWhile (· == '@')) with
  | none => .ok none
  | some (module, g) =>
    let remainingOffset := min (byteLen name.data) (byteLen module + 1)
    (sliceFrom name.data remainingOffset).map fun remaining => some (⟨remaining⟩, g)

/-! ## What the loop finds -/

/-- The components `cs` joined by `.`s. -/
def joinDots : List (List Char) → List Char
  | [] => []
  | c :: cs => c ++ cs.flatMap ('.' :: ·)

theorem joinDots_append_singleton {cs : List (List Char)} (hcs : cs ≠ []) (c : List Char) :
    joinDots (cs ++ [c]) = joinDots cs ++ '.' :: c := by
  obtain ⟨d, ds, rfl⟩ := List.exists_cons_of_ne_nil hcs
  simp [joinDots]

/-- Joining `k` leading components, a `.`, and the rest gives the whole name. -/
theorem joinDots_take_drop (cs : List (List Char)) {k : Nat} (hk : 0 < k) (hkn : k < cs.length) :
    joinDots cs = joinDots (cs.take k) ++ '.' :: joinDots (cs.drop k) := by
  obtain ⟨d, ds, rfl⟩ := List.exists_cons_of_ne_nil (List.ne_nil_of_length_pos (hk.trans hkn))
  obtain ⟨k, rfl⟩ : ∃ k', k = k' + 1 := ⟨k - 1, by omega⟩
  obtain ⟨e, es, hdrop⟩ := List.exists_cons_of_ne_nil
    (show ds.drop k ≠ [] by simp at hkn ⊢; omega)
  conv_lhs => rw [← List.take_append_drop k ds, hdrop]
  simp [joinDots, hdrop]

theorem joinDots_snoc_eq (ds : List (List Char)) (d : List Char) :
    ∃ pre, joinDots (ds ++ [d]) = pre ++ d := by
  rcases ds with _ | ⟨e, es⟩
  · exact ⟨[], by simp [joinDots]⟩
  · exact ⟨joinDots (e :: es) ++ ['.'], by rw [joinDots_append_singleton (by simp)]; simp⟩

/-- The components are non-empty and hold no `.`. -/
def Dotted (cs : List (List Char)) : Prop := ∀ c ∈ cs, c ≠ [] ∧ ∀ x ∈ c, x ≠ '.'

theorem Dotted.take {cs : List (List Char)} (hcs : Dotted cs) (k : Nat) : Dotted (cs.take k) :=
  fun c hc => hcs c (List.mem_of_mem_take hc)

/-- The module of the join of some components is the join of all but the last. -/
theorem module_joinDots_snoc {ds : List (List Char)} {c : List Char} (hds : Dotted (ds ++ [c])) :
    Name.module (joinDots (ds ++ [c])) = joinDots ds := by
  have hc := hds c (by simp)
  rcases List.eq_nil_or_concat ds with rfl | ⟨es, d, rfl⟩
  · simpa [joinDots] using module_of_forall_ne c hc.2
  · rw [List.concat_eq_append] at hds ⊢
    have hd := hds d (by simp)
    obtain ⟨pre, hpre⟩ := joinDots_snoc_eq es d
    rw [joinDots_append_singleton (by simp), hpre, module_append_dot _ _ _ hd.1 hd.2 hc.2]

theorem module_joinDots_take {cs : List (List Char)} (hcs : Dotted cs) {k : Nat}
    (hk : k < cs.length) :
    Name.module (joinDots (cs.take (k + 1))) = joinDots (cs.take k) := by
  rw [List.take_succ, List.getElem?_eq_getElem hk, Option.toList_some]
  refine module_joinDots_snoc fun c hc => ?_
  rcases List.mem_append.1 hc with hc | hc
  · exact hcs.take k c hc
  · exact hcs c (List.mem_singleton.1 hc ▸ List.getElem_mem hk)

theorem joinDots_take_ne_nil {cs : List (List Char)} (hcs : Dotted cs) {k : Nat}
    (hk : k < cs.length) : joinDots (cs.take (k + 1)) ≠ [] := by
  obtain ⟨d, ds, hds⟩ := List.exists_cons_of_ne_nil
    (List.ne_nil_of_length_pos (show 0 < (cs.take (k + 1)).length by simp; omega))
  have hd := (hcs.take (k + 1) d (hds ▸ List.mem_cons_self _ _)).1
  simp [hds, joinDots, hd]

/-- The longest run of leading components of `cs`, `j` of them with `1 ≤ j ≤ k`, whose join names
a global: `j` and the global. -/
def longestGlobal (global : String → Option Global) (cs : List (List Char)) :
    Nat → Option (Nat × Global)
  | 0 => none
  | k + 1 =>
    match global ⟨joinDots (cs.take (k + 1))⟩ with
    | some g => some (k + 1, g)
    | none => longestGlobal global cs k

theorem longestGlobal_bounds {global : String → Option Global} {cs : List (List Char)} {k j : Nat}
    {g : Global} (h : longestGlobal global cs k = some (j, g)) : 0 < j ∧ j ≤ k := by
  induction k with
  | zero => cases h
  | succ k ih =>
    rw [longestGlobal] at h
    split at h
    · cases h; omega
    · have := ih h; omega

/-- On the join of components with no empty one, the loop of `get_global` tries the joins of the
first `k`, then `k - 1`, ... components, and stops at the first that names a global. -/
theorem findGlobal_joinDots_take (global : String → Option Global) {cs : List (List Char)}
    (hcs : Dotted cs) {k : Nat} (hk : k ≤ cs.length) :
    findGlobal global (joinDots (cs.take k)) =
      (longestGlobal global cs k).map fun (j, g) => (joinDots (cs.take j), g) := by
  induction k with
  | zero => simp [joinDots, findGlobal, longestGlobal]
  | succ k ih =>
    obtain ⟨c, s, hjoin⟩ := List.exists_cons_of_ne_nil (joinDots_take_ne_nil hcs hk)
    rw [hjoin, findGlobal, ← hjoin, longestGlobal]
    rcases global ⟨joinDots (cs.take (k + 1))⟩ with _ | g
    · rw [module_joinDots_take hcs hk, ih (by omega)]
    · rfl

theorem dropWhile_at_joinDots {cs : List (List Char)} (hat : (joinDots cs).head? ≠ some '@') :
    (joinDots cs).dropWhile (· == '@') = joinDots cs := by
  rcases h : joinDots cs with _ | ⟨x, xs⟩
  · rfl
  · rw [h] at hat
    exact List.dropWhile_cons_of_neg (by simpa using hat)

/-- The bytes up to the `.` after `k` leading components, and what follows them. -/
theorem sliceFrom_joinDots (pre : List Char) {cs : List (List Char)} {k : Nat} (hk : 0 < k)
    (hkn : k < cs.length) :
    sliceFrom (pre ++ joinDots cs) (byteLen pre + byteLen (joinDots (cs.take k)) + 1) =
      .ok (joinDots (cs.drop k)) := by
  have hsplit : pre ++ joinDots cs =
      (pre ++ joinDots (cs.take k) ++ ['.']) ++ joinDots (cs.drop k) := by
    rw [joinDots_take_drop cs hk hkn]
    simp
  have hoff : byteLen pre + byteLen (joinDots (cs.take k)) + 1 =
      byteLen (pre ++ joinDots (cs.take k) ++ ['.']) := by
    simp [Nat.add_assoc]
  rw [hsplit, hoff, sliceFrom_append]

/-- For a name with no leading `@` and no empty component, `get_global` finds the longest run of
leading components that names a global, and returns the components after it. -/
theorem getGlobal_joinDots (global : String → Option Global) {cs : List (List Char)}
    (hcs : Dotted cs) (hat : (joinDots cs).head? ≠ some '@') :
    getGlobal global ⟨joinDots cs⟩ =
      .ok ((longestGlobal global cs cs.length).map fun (k, g) => (⟨joinDots (cs.drop k)⟩, g)) := by
  unfold getGlobal
  rw [dropWhile_at_joinDots hat, ← congrArg joinDots (List.take_length cs),
    findGlobal_joinDots_take global hcs le_rfl, List.take_length]
  rcases h : longestGlobal global cs cs.length with _ | ⟨k, g⟩
  · rfl
  obtain ⟨hk, hkn⟩ := longestGlobal_bounds h
  show Except.map _ (sliceFrom (joinDots cs)
    (min (byteLen (joinDots cs)) (byteLen (joinDots (cs.take k)) + 1))) = _
  rcases Nat.lt_or_eq_of_le hkn with hkn | rfl
  · have hmin : min (byteLen (joinDots cs)) (byteLen (joinDots (cs.take k)) + 1) =
        byteLen [] + byteLen (joinDots (cs.take k)) + 1 := by
      rw [joinDots_take_drop cs hk hkn]
      simp only [byteLen_cons, byteLen_append, utf8Size_dot, byteLen_nil]
      omega
    rw [hmin, ← List.nil_append (joinDots cs), sliceFrom_joinDots [] hk hkn]
    rfl
  · have hslice : sliceFrom (joinDots cs)
        (min (byteLen (joinDots cs)) (byteLen (joinDots (cs.take cs.length)) + 1)) = .ok [] := by
      rw [List.take_length, min_eq_left (Nat.le_succ _)]
      simpa using sliceFrom_append (joinDots cs) []
    rw [hslice]
    simp [Except.map, joinDots]

/-- Globals `m` and `m.f`: `get_global("m.f.x")` finds `m.f`, the longer. -/
theorem getGlobal_joinDots_of_nested :
    let global (name : String) : Option Global :=
      if name = "m" ∨ name = "m.f" then some ⟨name, .other "Int" [], ⟨[]⟩, .other "1"⟩ else none
    let cs := [['m'], ['f'], ['x']]
    Dotted cs ∧ (joinDots cs).head? ≠ some '@' ∧
      getGlobal global ⟨joinDots cs⟩ =
        .ok ((longestGlobal global cs cs.length).map fun (k, g) => (⟨joinDots (cs.drop k)⟩, g)) :=
  ⟨by unfold Dotted; decide, by decide,
    getGlobal_joinDots _ (by unfold Dotted; decide) (by decide)⟩

/-- After a leading `@`, the rest that `get_global` returns keeps the `.` before it. -/
theorem getGlobal_at_joinDots (global : String → Option Global) {cs : List (List Char)}
    (hcs : Dotted cs) (hat : (joinDots cs).head? ≠ some '@') :
    getGlobal global ⟨'@' :: joinDots cs⟩ =
      .ok ((longestGlobal global cs cs.length).map fun (k, g) =>
        (⟨if k = cs.length then [] else '.' :: joinDots (cs.drop k)⟩, g)) := by
  unfold getGlobal
  rw [List.dropWhile_cons_of_pos (by decide), dropWhile_at_joinDots hat,
    ← congrArg joinDots (List.take_length cs), findGlobal_joinDots_take global hcs le_rfl,
    List.take_length]
  rcases h : longestGlobal global cs cs.length with _ | ⟨k, g⟩
  · rfl
  obtain ⟨hk, hkn⟩ := longestGlobal_bounds h
  show Except.map _ (sliceFrom (['@'] ++ joinDots cs)
    (min (byteLen ('@' :: joinDots cs)) (byteLen (joinDots (cs.take k)) + 1))) = _
  rcases Nat.lt_or_eq_of_le hkn with hkn | rfl
  · have hmin : min (byteLen ('@' :: joinDots cs)) (byteLen (joinDots (cs.take k)) + 1) =
        byteLen ['@'] + byteLen (joinDots (cs.take k)) := by
      rw [joinDots_take_drop cs hk hkn]
      simp only [byteLen_cons, byteLen_append, utf8Size_dot, utf8Size_at, byteLen_nil]
      omega
    have hslice : sliceFrom (['@'] ++ joinDots cs) (byteLen (['@'] ++ joinDots (cs.take k))) =
        .ok ('.' :: joinDots (cs.drop k)) := by
      rw [joinDots_take_drop cs hk hkn, ← List.append_assoc, sliceFrom_append]
    rw [hmin, ← byteLen_append, hslice]
    simp [Except.map, Nat.ne_of_lt hkn]
  · have hslice : sliceFrom (['@'] ++ joinDots cs)
        (min (byteLen ('@' :: joinDots cs)) (byteLen (joinDots (cs.take cs.length)) + 1)) =
          .ok [] := by
      rw [List.take_length, min_eq_left (by simp only [byteLen_cons, utf8Size_at]; omega)]
      simpa using sliceFrom_append (['@'] ++ joinDots cs) []
    rw [hslice]
    simp [Except.map]

/-- `get_global("@m.f")` with a global `m` returns the rest `.f`, where `get_global("m.f")`
returns `f`. -/
theorem getGlobal_at_keeps_dot :
    let global (name : String) : Option Global :=
      if name = "m" then some ⟨"m", .other "Int" [], ⟨[]⟩, .other "1"⟩ else none
    (getGlobal global "@m.f").map (·.map Prod.fst) = .ok (some ".f") ∧
      (getGlobal global "m.f").map (·.map Prod.fst) = .ok (some "f") := by
  simp [getGlobal, findGlobal, Name.module, List.rdropWhile, sliceFrom, byteLen]
  exact ⟨rfl, rfl⟩

end embed_lang.query
