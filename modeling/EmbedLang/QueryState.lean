-- The file maps of the compilation `State`. `add_filemap` and `update_filemap` keep
-- `index_map` pointing at the start of each name's latest file in the `CodeMap`, so that
-- `get_filemap` returns the source last given for a name, after any sequence of calls.
import Mathlib.Data.List.Pairwise

namespace embed_lang.query

/-! ## The code map at its contract -/

/-- `codespan::FileMap`: a file's name and source, and the span `start..stop` it takes in the
code map, both ends included, as `find_file` reads them. -/
structure FileMap where
  name : String
  src : String
  start : Nat
  stop : Nat
  start_le_stop : start ≤ stop
  deriving DecidableEq

namespace FileMap

/-- The span of `fm` holds the index `i`. -/
def contains (fm : FileMap) (i : Nat) : Bool := fm.start ≤ i && i ≤ fm.stop

/-- Two files whose spans share no index. -/
def Apart (f g : FileMap) : Prop := f.stop < g.start ∨ g.stop < f.start

@[simp] theorem contains_iff (fm : FileMap) (i : Nat) :
    fm.contains i = true ↔ fm.start ≤ i ∧ i ≤ fm.stop := by
  simp [contains]

theorem contains_start (fm : FileMap) : fm.contains fm.start = true := by
  simpa using fm.start_le_stop

theorem Apart.symm {f g : FileMap} (h : f.Apart g) : g.Apart f := Or.symm h

theorem Apart.contains_eq_false {f g : FileMap} {i : Nat} (h : f.Apart g)
    (hg : g.contains i = true) : f.contains i = false := by
  rw [contains_iff] at hg
  simp only [contains, Bool.and_eq_false_iff, decide_eq_false_iff_not]
  unfold Apart at h
  omega

theorem Apart.start_ne {f g : FileMap} (h : f.Apart g) : f.start ≠ g.start := by
  have := f.start_le_stop
  have := g.start_le_stop
  unfold Apart at h
  omega

end FileMap

/-- `codespan::CodeMap`: its files, in the order it keeps them. -/
structure CodeMap where
  files : List FileMap

/-- `CodeMap::find_file`: the file whose span holds `i`. -/
def CodeMap.findFile (cm : CodeMap) (i : Nat) : Option FileMap :=
  cm.files.find? (·.contains i)

/-- The files of `cm` take pairwise disjoint spans. -/
def CodeMap.Spaced (cm : CodeMap) : Prop := cm.files.Pairwise FileMap.Apart

/-- The code map's `add_filemap` and `update`, which the state calls. -/
structure CodeMapOps where
  addFilemap : CodeMap → String → String → CodeMap × FileMap
  update : CodeMap → Nat → String → CodeMap × Option FileMap

/-- `add_filemap(name, src)` at its contract: a file `name` with source `src` goes after the
others, at a span disjoint from theirs. -/
def Appended (cm : CodeMap) (name src : String) (r : CodeMap × FileMap) : Prop :=
  r.2.name = name ∧ r.2.src = src ∧ (∀ g ∈ cm.files, g.Apart r.2) ∧ r.1.files = cm.files ++ [r.2]

/-- `update(i, src)` at its contract: the file whose span holds `i` gives way to one with source
`src`, at its span or at a new one disjoint from the others', and that file is returned; with
no such file nothing changes. -/
def Replaced (cm : CodeMap) (i : Nat) (src : String) (r : CodeMap × Option FileMap) : Prop :=
  match cm.findFile i with
  | none => r = (cm, none)
  | some f => ∃ fm rest, r.2 = some fm ∧ fm.src = src ∧ cm.files.Perm (f :: rest) ∧
      (∀ g ∈ rest, g.Apart fm) ∧ r.1.files.Perm (fm :: rest)

/-- Code map operations that keep their contract on every well spaced code map. -/
structure CodeMapOps.Lawful (ops : CodeMapOps) : Prop where
  addFilemap : ∀ cm name src, cm.Spaced → Appended cm name src (ops.addFilemap cm name src)
  update : ∀ cm i src, cm.Spaced → Replaced cm i src (ops.update cm i src)

theorem find?_contains {files : List FileMap} {fm : FileMap} {i : Nat}
    (h : files.Pairwise FileMap.Apart) (hfm : fm ∈ files) (hi : fm.contains i = true) :
    files.find? (·.contains i) = some fm := by
  induction files with
  | nil => cases hfm
  | cons g gs ih =>
    rw [List.pairwise_cons] at h
    rcases List.mem_cons.1 hfm with rfl | hfm
    · exact List.find?_cons_of_pos _ hi
    · have hg : g.contains i = false := (h.1 fm hfm).contains_eq_false hi
      rw [List.find?_cons_of_neg _ (by simp [hg]), ih h.2 hfm]

/-- On a well spaced code map, `find_file` finds the one file whose span holds the index. -/
theorem findFile_eq {cm : CodeMap} {fm : FileMap} {i : Nat} (h : cm.Spaced)
    (hfm : fm ∈ cm.files) (hi : fm.contains i = true) : cm.findFile i = some fm :=
  find?_contains h hfm hi

/-! ## The state -/

/-- `State`, with the fields its file map methods use. -/
structure State where
  codeMap : CodeMap
  indexMap : String → Option Nat

/-- `State::default()`. -/
def State.default : State := ⟨⟨[]⟩, fun _ => none⟩

/-- `index_map.insert(file, i)`. -/
def insertIndex (indexMap : String → Option Nat) (file : String) (i : Nat) :
    String → Option Nat :=
  fun f => if f = file then some i else indexMap f

@[simp] theorem insertIndex_self (indexMap : String → Option Nat) (file : String) (i : Nat) :
    insertIndex indexMap file i file = some i := if_pos rfl

@[simp] theorem insertIndex_of_ne (indexMap : String → Option Nat) {file f : String} (i : Nat)
    (h : f ≠ file) : insertIndex indexMap file i f = indexMap f := if_neg h

namespace State

variable (ops : CodeMapOps)

/-- `State::update_filemap`. -/
def updateFilemap (st : State) (file src : String) : State × Option FileMap :=
  match st.indexMap file with
  | none => (st, none)
  | some i =>
    match ops.update st.codeMap i src with
    | (codeMap, none) => ({ st with codeMap }, none)
    | (codeMap, some fileMap) =>
      (⟨codeMap, insertIndex st.indexMap file fileMap.start⟩, some fileMap)

/-- `State::get_filemap`. -/
def getFilemap (st : State) (file : String) : Option FileMap :=
  (st.indexMap file).bind st.codeMap.findFile

/-- `State::add_filemap`. -/
def addFilemap (st : State) (file src : String) : State × FileMap :=
  match (st.getFilemap file).filter (·.src == src) with
  | some fileMap => (st, fileMap)
  | none =>
    let (codeMap, fileMap) := ops.addFilemap st.codeMap file src
    (⟨codeMap, insertIndex st.indexMap file fileMap.start⟩, fileMap)

end State

/-- A call on the state's file maps. -/
inductive FileCall
  | addFilemap (file src : String)
  | updateFilemap (file src : String)

/-- The name a call is made on. -/
def FileCall.file : FileCall → String
  | .addFilemap file _ | .updateFilemap file _ => file

/-- A call on `st`: the state after it, and the file map it returns. -/
def State.call (ops : CodeMapOps) (st : State) : FileCall → State × Option FileMap
  | .addFilemap file src => ((st.addFilemap ops file src).1, some (st.addFilemap ops file src).2)
  | .updateFilemap file src => st.updateFilemap ops file src

/-- The states that calls reach from `State::default()`, with each call and what it returned. -/
inductive Reaches (ops : CodeMapOps) : List (FileCall × Option FileMap) → State → Prop
  | default : Reaches ops [] State.default
  | call {calls : List (FileCall × Option FileMap)} {st : State} (c : FileCall) :
      Reaches ops calls st → Reaches ops (calls ++ [(c, (st.call ops c).2)]) (st.call ops c).1

/-! ## What the file maps are for -/

/-- The source the calls gave `file` last: that of its latest `add_filemap`, or of its latest
`update_filemap` that returned a file map, whichever came last. -/
def latestSource (calls : List (FileCall × Option FileMap)) (file : String) : Option String :=
  calls.foldl (fun latest (c, r) =>
    match c with
    | .addFilemap f src => if f = file then some src else latest
    | .updateFilemap f src => if f = file ∧ r.isSome then some src else latest) none

/-- `file` was added by one of the calls. -/
def Added (calls : List (FileCall × Option FileMap)) (file : String) : Prop :=
  ∃ src, FileCall.addFilemap file src ∈ calls.map Prod.fst

theorem latestSource_snoc (calls : List (FileCall × Option FileMap)) (c : FileCall)
    (r : Option FileMap) (file : String) :
    latestSource (calls ++ [(c, r)]) file =
      match c with
      | .addFilemap f src => if f = file then some src else latestSource calls file
      | .updateFilemap f src =>
        if f = file ∧ r.isSome then some src else latestSource calls file := by
  simp only [latestSource, List.foldl_append, List.foldl_cons, List.foldl_nil]

theorem added_snoc (calls : List (FileCall × Option FileMap)) (c : FileCall)
    (r : Option FileMap) (file : String) :
    Added (calls ++ [(c, r)]) file ↔ Added calls file ∨ ∃ src, c = .addFilemap file src := by
  simp only [Added, List.map_append, List.map_cons, List.map_nil, List.mem_append,
    List.mem_singleton, exists_or, eq_comm]

/-! ## The invariant -/

/-- What every reachable state keeps: the files take disjoint spans, and `index_map` sends
distinct names to the starts of distinct files. -/
structure State.Good (st : State) : Prop where
  spaced : st.codeMap.Spaced
  indexed : ∀ f i, st.indexMap f = some i → ∃ fm ∈ st.codeMap.files, fm.start = i
  index_inj : ∀ f g i, st.indexMap f = some i → st.indexMap g = some i → f = g

theorem State.getFilemap_eq {st : State} {file : String} {fm : FileMap}
    (hsp : st.codeMap.Spaced) (hidx : st.indexMap file = some fm.start)
    (hfm : fm ∈ st.codeMap.files) : st.getFilemap file = some fm := by
  rw [getFilemap, hidx, Option.some_bind, findFile_eq hsp hfm fm.contains_start]

theorem State.Good.getFilemap_of_index {st : State} (hg : st.Good) {file : String} {i : Nat}
    (h : st.indexMap file = some i) :
    ∃ fm ∈ st.codeMap.files, fm.start = i ∧ st.getFilemap file = some fm := by
  obtain ⟨fm, hfm, rfl⟩ := hg.indexed file i h
  exact ⟨fm, hfm, rfl, State.getFilemap_eq hg.spaced h hfm⟩

theorem State.getFilemap_eq_none {st : State} {file : String} (h : st.indexMap file = none) :
    st.getFilemap file = none := by
  rw [getFilemap, h, Option.none_bind]

/-- Pointing `file` at a new file `fm` of a well spaced code map that keeps the file of every
other name, apart from `fm`, keeps the invariant and every other name's file map. -/
theorem State.Good.install {st : State} (hg : st.Good) {file : String} {cm : CodeMap}
    {fm : FileMap} (hsp : cm.Spaced) (hfm : fm ∈ cm.files)
    (hkeep : ∀ g ≠ file, ∀ G ∈ st.codeMap.files, st.indexMap g = some G.start →
      G ∈ cm.files ∧ G.Apart fm) :
    State.Good ⟨cm, insertIndex st.indexMap file fm.start⟩ ∧
      State.getFilemap ⟨cm, insertIndex st.indexMap file fm.start⟩ file = some fm ∧
      ∀ g ≠ file, State.getFilemap ⟨cm, insertIndex st.indexMap file fm.start⟩ g =
        st.getFilemap g := by
  -- the file of another name, which stays and is not `fm`
  have hother : ∀ g ≠ file, ∀ i, st.indexMap g = some i →
      ∃ G, G.start = i ∧ st.getFilemap g = some G ∧ G ∈ cm.files ∧ G.Apart fm := by
    intro g hne i hi
    obtain ⟨G, hG, rfl, hget⟩ := hg.getFilemap_of_index hi
    exact ⟨G, rfl, hget, hkeep g hne G hG hi⟩
  -- so no other name has the index of `fm`
  have hfresh : ∀ g ≠ file, st.indexMap g ≠ some fm.start := fun g hne hi =>
    let ⟨_, hG, _, _, hap⟩ := hother g hne _ hi
    hap.start_ne hG
  refine ⟨⟨hsp, fun g i hi => ?_, fun f g i hf hgi => ?_⟩,
    State.getFilemap_eq hsp (insertIndex_self _ _ _) hfm, fun g hne => ?_⟩
  · by_cases hgf : g = file
    · subst hgf
      exact ⟨fm, hfm, by simpa using hi⟩
    · obtain ⟨G, rfl, -, hG, -⟩ := hother g hgf i (by simpa [hgf] using hi)
      exact ⟨G, hG, rfl⟩
  · by_cases hff : f = file <;> by_cases hgf : g = file <;>
      simp only [hff, hgf, insertIndex_self, ne_eq, not_false_eq_true, insertIndex_of_ne,
        Option.some.injEq] at hf hgi
    · exact hff.trans hgf.symm
    · exact absurd (hf ▸ hgi) (hfresh g hgf)
    · exact absurd (hgi ▸ hf) (hfresh f hff)
    · exact hg.index_inj f g i hf hgi
  · rcases hi : st.indexMap g with _ | i
    · rw [State.getFilemap_eq_none hi, State.getFilemap_eq_none (by simpa [hne] using hi)]
    · obtain ⟨G, rfl, hget, hG, -⟩ := hother g hne _ hi
      rw [hget, State.getFilemap_eq hsp (by simpa [hne] using hi) hG]

/-! ## One lemma per method -/

section

variable {ops : CodeMapOps} {st st' : State} {file src : String}

/-- `add_filemap` keeps the invariant, and points `file` at a file map with source `src`
without touching any other name. -/
theorem State.Good.addFilemap (hops : ops.Lawful) (hg : st.Good) {fm : FileMap}
    (h : st.addFilemap ops file src = (st', fm)) :
    st'.Good ∧ fm.src = src ∧ st'.getFilemap file = some fm ∧
      (∀ g ≠ file, st'.getFilemap g = st.getFilemap g) ∧
      ∀ g, (st'.indexMap g).isSome ↔ g = file ∨ (st.indexMap g).isSome := by
  unfold State.addFilemap at h
  rcases hf : (st.getFilemap file).filter (·.src == src) with _ | fm'
  · have hadded := hops.addFilemap st.codeMap file src hg.spaced
    rcases hadd : ops.addFilemap st.codeMap file src with ⟨cm, fm'⟩
    rw [hf, hadd] at h
    rw [hadd] at hadded
    obtain ⟨-, hsrc, hfresh, hfiles⟩ := hadded
    dsimp only at hsrc hfresh hfiles
    simp only [Prod.mk.injEq] at h
    obtain ⟨rfl, rfl⟩ := h
    have hsp : cm.Spaced := by
      rw [CodeMap.Spaced, hfiles, List.pairwise_append]
      exact ⟨hg.spaced, List.pairwise_singleton _ _,
        fun g hg' _ hb => (List.mem_singleton.1 hb) ▸ hfresh g hg'⟩
    obtain ⟨hgood, hget, hframe⟩ := hg.install hsp (by simp [hfiles])
      fun g _ G hG _ => ⟨by simp [hfiles, hG], hfresh G hG⟩
    refine ⟨hgood, hsrc, hget, hframe, fun g => ?_⟩
    by_cases hgf : g = file <;> simp [hgf]
  · rw [hf, Prod.mk.injEq] at h
    obtain ⟨rfl, rfl⟩ := h
    obtain ⟨hget, hsrc⟩ := Option.filter_eq_some.1 hf
    have hidx : (st.indexMap file).isSome := by
      rcases hi : st.indexMap file with _ | i
      · simp [State.getFilemap_eq_none hi] at hget
      · rfl
    refine ⟨hg, by simpa using hsrc, hget, fun _ _ => rfl, fun g => ?_⟩
    by_cases hgf : g = file <;> simp [hgf, hidx]

/-- `update_filemap` keeps the invariant and every other name's file map; it returns a file map,
with source `src`, exactly when `file` has an index, and then points `file` at it. -/
theorem State.Good.updateFilemap (hops : ops.Lawful) (hg : st.Good) {r : Option FileMap}
    (h : st.updateFilemap ops file src = (st', r)) :
    st'.Good ∧ (∀ g ≠ file, st'.getFilemap g = st.getFilemap g) ∧
      (∀ g, (st'.indexMap g).isSome ↔ (st.indexMap g).isSome) ∧
      (r = none → st.indexMap file = none ∧ st' = st) ∧
      ∀ fm, r = some fm → fm.src = src ∧ st'.getFilemap file = some fm := by
  rcases hi : st.indexMap file with _ | i
  · simp only [State.updateFilemap, hi, Prod.mk.injEq] at h
    obtain ⟨rfl, rfl⟩ := h
    exact ⟨hg, fun _ _ => rfl, fun _ => Iff.rfl, fun _ => ⟨rfl, rfl⟩, fun _ h => nomatch h⟩
  obtain ⟨F, hF, rfl, -⟩ := hg.getFilemap_of_index hi
  have hrep := hops.update st.codeMap F.start src hg.spaced
  rw [Replaced, findFile_eq hg.spaced hF F.contains_start] at hrep
  rcases hup : ops.update st.codeMap F.start src with ⟨cm, r'⟩
  rw [hup] at hrep
  obtain ⟨fm, rest, hr, hsrc, hperm, hapart, hperm'⟩ := hrep
  dsimp only at hr hperm'
  subst hr
  simp only [State.updateFilemap, hi, hup, Prod.mk.injEq] at h
  obtain ⟨rfl, rfl⟩ := h
  have hrest := (List.pairwise_cons.1 ((hperm.pairwise_iff FileMap.Apart.symm).1 hg.spaced)).2
  have hsp : cm.Spaced := (hperm'.pairwise_iff FileMap.Apart.symm).2
    (List.pairwise_cons.2 ⟨fun g hg' => (hapart g hg').symm, hrest⟩)
  obtain ⟨hgood, hget, hframe⟩ := hg.install hsp (hperm'.mem_iff.2 (List.mem_cons_self _ _))
    fun g hne G hG hgi => by
      have hGF : G ≠ F := fun hGF => hne (hg.index_inj g file _ hgi (hGF ▸ hi))
      have hrestG : G ∈ rest := (List.mem_cons.1 (hperm.mem_iff.1 hG)).resolve_left hGF
      exact ⟨hperm'.mem_iff.2 (List.mem_cons_of_mem _ hrestG), hapart G hrestG⟩
  refine ⟨hgood, hframe, fun g => ?_, fun h => ?_, fun _ h => ?_⟩
  · by_cases hgf : g = file <;> simp [hgf, hi]
  · cases h
  · cases h
    exact ⟨hsrc, hget⟩

end

/-! ## Every run -/

/-- Along every run, the state keeps the invariant, a name has an index exactly when it was
added, and its file map has the source the calls gave it last. -/
theorem Reaches.good_latest {ops : CodeMapOps} (hops : ops.Lawful)
    {calls : List (FileCall × Option FileMap)} {st : State} (hrun : Reaches ops calls st) :
    st.Good ∧ ∀ file, ((st.indexMap file).isSome ↔ Added calls file) ∧
      (st.getFilemap file).map FileMap.src = latestSource calls file := by
  induction hrun with
  | default =>
    refine ⟨⟨List.Pairwise.nil, fun _ _ h => (nomatch h), fun _ _ _ h => (nomatch h)⟩,
      fun file => ⟨?_, rfl⟩⟩
    simp [State.default, Added]
  | @call calls st c _ ih =>
    obtain ⟨hg, hfiles⟩ := ih
    cases c with
    | addFilemap f src =>
      rcases hst : st.addFilemap ops f src with ⟨st', fm⟩
      obtain ⟨hgood, hsrc, hget, hframe, hidx⟩ := hg.addFilemap hops hst
      refine ⟨by simpa [State.call, hst] using hgood, fun file => ?_⟩
      simp only [State.call, hst, latestSource_snoc, added_snoc, FileCall.addFilemap.injEq]
      by_cases hff : f = file
      · subst hff
        simp [hget, hsrc, hidx]
      · have hne : file ≠ f := Ne.symm hff
        simp [hframe file hne, hidx, hne, hff, (hfiles file).1, (hfiles file).2]
    | updateFilemap f src =>
      rcases hst : st.updateFilemap ops f src with ⟨st', r⟩
      obtain ⟨hgood, hframe, hidx, hnone, hsome⟩ := hg.updateFilemap hops hst
      refine ⟨by simpa [State.call, hst] using hgood, fun file => ?_⟩
      simp only [State.call, hst, latestSource_snoc, added_snoc, reduceCtorEq, exists_false,
        or_false, hidx, (hfiles file).1, true_and]
      by_cases hff : f = file
      · subst hff
        rcases r with _ | fm
        · obtain ⟨-, rfl⟩ := hnone rfl
          simp [(hfiles f).2]
        · simp [hsome fm rfl]
      · simp [hframe file (Ne.symm hff), hff, (hfiles file).2]

/-- The file maps of a run: `get_filemap(f)` is `None` exactly when `f` was never added, and has
otherwise the source of the latest `add_filemap(f, s)` or successful `update_filemap(f, s)`;
calls on other names leave it alone; and adding the source it already has changes nothing. -/
theorem getFilemap_latest (ops : CodeMapOps) (hops : ops.Lawful)
    (calls : List (FileCall × Option FileMap)) (st : State) (hrun : Reaches ops calls st)
    (file : String) :
    ((st.getFilemap file).isNone ↔ ¬ Added calls file) ∧
      (st.getFilemap file).map FileMap.src = latestSource calls file ∧
      (∀ c : FileCall, c.file ≠ file → (st.call ops c).1.getFilemap file = st.getFilemap file) ∧
      ∀ src fm, st.getFilemap file = some fm → fm.src = src →
        st.call ops (.addFilemap file src) = (st, some fm) := by
  obtain ⟨hg, hfiles⟩ := hrun.good_latest hops
  refine ⟨?_, (hfiles file).2, fun c hc => ?_, fun src fm hget hsrc => ?_⟩
  · rw [← (hfiles file).1]
    rcases hi : st.indexMap file with _ | i
    · simp [State.getFilemap_eq_none hi]
    · obtain ⟨fm, -, -, hget⟩ := hg.getFilemap_of_index hi
      simp [hget]
  · cases c with
    | addFilemap f src =>
      rcases hst : st.addFilemap ops f src with ⟨st', fm⟩
      simpa [State.call, hst] using (hg.addFilemap hops hst).2.2.2.1 file (Ne.symm hc)
    | updateFilemap f src =>
      rcases hst : st.updateFilemap ops f src with ⟨st', r⟩
      simpa [State.call, hst] using (hg.updateFilemap hops hst).2.1 file (Ne.symm hc)
  · simp [State.call, State.addFilemap, hget, hsrc, Option.filter]

/-! ## Each name's source, and the size of the code map -/

/-- The source of each name's file map. -/
def State.sources (st : State) (file : String) : Option String :=
  (st.getFilemap file).map FileMap.src

theorem filter_src_isSome (o : Option FileMap) (src : String) :
    (o.filter (·.src == src)).isSome = decide (o.map FileMap.src = some src) := by
  cases o <;> simp [Option.filter]
  split <;> simp_all

section

variable {ops : CodeMapOps} {st : State}

/-- `add_filemap` appends a file to the code map unless the name already has the source. -/
theorem State.addFilemap_files (hops : ops.Lawful) (hsp : st.codeMap.Spaced) (file src : String) :
    (st.addFilemap ops file src).1.codeMap.files =
      if st.sources file = some src then st.codeMap.files
      else st.codeMap.files ++ [(st.addFilemap ops file src).2] := by
  have hsome := filter_src_isSome (st.getFilemap file) src
  rcases hf : (st.getFilemap file).filter (·.src == src) with _ | fm
  · have hne : st.sources file ≠ some src := by simpa [State.sources, hf] using hsome
    have hadded := hops.addFilemap st.codeMap file src hsp
    rcases hadd : ops.addFilemap st.codeMap file src with ⟨cm, fm'⟩
    rw [hadd] at hadded
    simp only [State.addFilemap, hf, hadd, if_neg hne]
    exact hadded.2.2.2
  · have hsame : st.sources file = some src := by simpa [State.sources, hf] using hsome.symm
    simp only [State.addFilemap, hf, if_pos hsame]

/-- `update_filemap` puts the new file in the place of the old one: the code map keeps its
size. -/
theorem State.Good.updateFilemap_files (hops : ops.Lawful) (hg : st.Good) (file src : String) :
    (st.updateFilemap ops file src).1.codeMap.files.length = st.codeMap.files.length := by
  unfold State.updateFilemap
  rcases hi : st.indexMap file with _ | i
  · rfl
  · have hrep := hops.update st.codeMap i src hg.spaced
    have hlen : (ops.update st.codeMap i src).1.files.length = st.codeMap.files.length := by
      unfold Replaced at hrep
      split at hrep
      · rw [hrep]
      · obtain ⟨fm, rest, -, -, hperm, -, hperm'⟩ := hrep
        simp [hperm'.length_eq, hperm.length_eq]
    rcases hup : ops.update st.codeMap i src with ⟨cm, _ | fm⟩ <;> simpa [hup] using hlen

/-- `add_filemap` gives `file` the source `src`, and leaves every other name's. -/
theorem State.Good.addFilemap_sources (hops : ops.Lawful) (hg : st.Good) (file src : String) :
    (st.addFilemap ops file src).1.Good ∧
      (st.addFilemap ops file src).1.sources =
        fun f => if f = file then some src else st.sources f := by
  rcases hst : st.addFilemap ops file src with ⟨st', fm⟩
  obtain ⟨hgood, hsrc, hget, hframe, -⟩ := hg.addFilemap hops hst
  refine ⟨hgood, funext fun f => ?_⟩
  by_cases hf : f = file
  · subst hf
    simp [State.sources, hget, hsrc]
  · simp [State.sources, hf, hframe f hf]

/-- `update_filemap` gives a name that has a source the source `src`, and changes no other
source; on a name without one it changes nothing. -/
theorem State.Good.updateFilemap_sources (hops : ops.Lawful) (hg : st.Good) (file src : String) :
    (st.updateFilemap ops file src).1.Good ∧
      (st.updateFilemap ops file src).1.sources =
        if (st.sources file).isSome then fun f => if f = file then some src else st.sources f
        else st.sources := by
  rcases hst : st.updateFilemap ops file src with ⟨st', r⟩
  obtain ⟨hgood, hframe, -, hnone, hsome⟩ := hg.updateFilemap hops hst
  refine ⟨hgood, ?_⟩
  rcases r with _ | fm
  · obtain ⟨hi, rfl⟩ := hnone rfl
    simp [State.sources, State.getFilemap_eq_none hi]
  · obtain ⟨hsrc, hget⟩ := hsome fm rfl
    rcases hi : st.indexMap file with _ | i
    · simp [State.updateFilemap, hi] at hst
    obtain ⟨F, -, -, hF⟩ := hg.getFilemap_of_index hi
    rw [if_pos (by simp [State.sources, hF])]
    funext f
    by_cases hf : f = file
    · subst hf
      simp [State.sources, hget, hsrc]
    · simp [State.sources, hf, hframe f hf]

end

/-! ## A code map that keeps the contract -/

/-- The stop of the last file, or `0`. -/
def lastStop (files : List FileMap) : Nat := files.foldr (fun f n => Nat.max f.stop n) 0

theorem stop_le_lastStop {files : List FileMap} {g : FileMap} (hg : g ∈ files) :
    g.stop ≤ lastStop files := by
  induction files with
  | nil => cases hg
  | cons f fs ih =>
    rcases List.mem_cons.1 hg with rfl | hg
    · exact Nat.le_max_left _ _
    · exact Nat.le_trans (ih hg) (Nat.le_max_right _ _)

/-- A code map that puts a new file after the last one, and updates a file in place. -/
def appendOps : CodeMapOps where
  addFilemap cm name src :=
    let fm : FileMap := ⟨name, src, lastStop cm.files + 1, lastStop cm.files + 1 + src.length,
      Nat.le_add_right _ _⟩
    (⟨cm.files ++ [fm]⟩, fm)
  update cm i src :=
    match cm.findFile i with
    | none => (cm, none)
    | some f => (⟨{ f with src } :: cm.files.erase f⟩, some { f with src })

theorem appendOps_lawful : appendOps.Lawful where
  addFilemap cm name src _ :=
    ⟨rfl, rfl, fun g hg => Or.inl (Nat.lt_succ_of_le (stop_le_lastStop hg)), rfl⟩
  update cm i src hsp := by
    unfold Replaced
    rcases hf : cm.findFile i with _ | f
    · simp [appendOps, hf]
    · have hperm := List.perm_cons_erase (List.mem_of_find?_eq_some hf)
      have hrest := List.pairwise_cons.1 ((hperm.pairwise_iff FileMap.Apart.symm).1 hsp)
      exact ⟨{ f with src }, cm.files.erase f, by simp [appendOps, hf], rfl, hperm,
        fun g hg => (hrest.1 g hg).symm, by simp [appendOps, hf]⟩

/-- One `add_filemap` from the default state: `a` has the source it was added with. -/
theorem getFilemap_latest_after_add :
    let c := FileCall.addFilemap "a" "x"
    let calls := [(c, (State.default.call appendOps c).2)]
    let st := (State.default.call appendOps c).1
    appendOps.Lawful ∧ Reaches appendOps calls st ∧
      ((st.getFilemap "a").isNone ↔ ¬ Added calls "a") ∧
      (st.getFilemap "a").map FileMap.src = latestSource calls "a" ∧
      (∀ c : FileCall, c.file ≠ "a" → (st.call appendOps c).1.getFilemap "a" = st.getFilemap "a") ∧
      ∀ src fm, st.getFilemap "a" = some fm → fm.src = src →
        st.call appendOps (.addFilemap "a" src) = (st, some fm) :=
  ⟨appendOps_lawful, .call _ .default,
    getFilemap_latest appendOps appendOps_lawful _ _ (.call _ .default) "a"⟩

end embed_lang.query
