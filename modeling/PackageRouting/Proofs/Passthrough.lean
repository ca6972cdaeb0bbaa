/-
PackageRouting/Proofs/Passthrough.lean

What the copying bundler answers, and that its token does not show in it.

A token is current if each of its texts whose stamp the file still has is the
text of the file (`Current`); loading from a current token is loading from the
files (`load_eq`, `loadAll_eq`).  A token is genuine if each of its texts was
read, with its stamp, from one of the states that the files have been in
(`Genuine`).  Where stamps tell the states apart it is current in each of them
(`Genuine.current`), and what is loaded makes a genuine token again
(`genuine_ofList`).

Inputs are normal forms: the token finds a path under every spelling, but the
files are read at the spelling that the input has.

Main results: `bundle_eq`, `genuine_of_bundle`, `bundle_of_readable` (inputs
that can be read, and have names, are copied one by one), and `chunks_of_bundle`
(the names and entries of the chunks of any answer).
-/
import Mathlib.Data.Set.Defs
import PackageRouting.Passthrough
import PackageRouting.Proofs.Path.Normal
import PackageRouting.Proofs.SortedMap

namespace PackageRouting

/-- A file reads the same in any two states in which it has one stamp. -/
def StampsSeparate (states : Set SourceFiles) : Prop :=
  ∀ f ∈ states, ∀ g ∈ states, ∀ place stamp,
    f.stamp place = .ok stamp → g.stamp place = .ok stamp → f.text place = g.text place

namespace Passthrough

variable {states : Set SourceFiles} {files : SourceFiles} {root input : Path} {cache : Cache}
  {inputs : List Path} {loaded : List (Path × Stamp × String)}

/-- The text stood in the file, with the stamp, in one of the states. -/
def WasRead (states : Set SourceFiles) (root input : Path) (stamp : Stamp) (text : String) : Prop :=
  ∃ f ∈ states, f.stamp (root.join input) = .ok stamp ∧ f.text (root.join input) = .ok text

/-- What is found in the cache for an input was read. -/
def Genuine (states : Set SourceFiles) (root : Path) (cache : Cache) : Prop :=
  ∀ (p : Path) stamp text, cache.find? p.normalize = some (stamp, text) →
    WasRead states root p.normalize stamp text

/-- A text of the cache is the text of its file, if the file still has the stamp. -/
def Current (files : SourceFiles) (root : Path) (cache : Cache) : Prop :=
  ∀ (p : Path) stamp text, cache.find? p.normalize = some (stamp, text) →
    files.stamp (root.join p.normalize) = .ok stamp → files.text (root.join p.normalize) = .ok text

theorem current_empty : Current files root .empty := by
  intro p stamp text h
  cases h

theorem Current.erase (h : Current files root cache) (input : Path) :
    Current files root (cache.erase input) := by
  intro p stamp text hfind
  rw [SortedMap.find?_erase] at hfind
  split at hfind
  · cases hfind
  · exact h p stamp text hfind

/-- **Where stamps tell the states apart, a genuine cache is current in each of them.** -/
theorem Genuine.current (h : Genuine states root cache) (hsep : StampsSeparate states)
    (hfiles : files ∈ states) : Current files root cache := by
  intro p stamp text hfind hstamp
  obtain ⟨f, hf, hfstamp, hftext⟩ := h p stamp text hfind
  -- the file has the stamp it had when the text was read
  rw [← hsep f hf files hfiles _ stamp hfstamp hstamp, hftext]

/-- Texts that were read make a genuine cache. -/
theorem genuine_ofList (h : ∀ e ∈ loaded, (∃ p : Path, e.1 = p.normalize) ∧
    WasRead states root e.1 e.2.1 e.2.2) : Genuine states root (.ofList loaded) := by
  intro p stamp text hfind
  obtain ⟨k, hk, hmem⟩ := SortedMap.exists_of_find?_ofList hfind
  obtain ⟨⟨q, hq⟩, hread⟩ := h _ hmem
  -- the entry may be keyed by another spelling, but both are normal forms
  have hspelling : p.normalize = k := by
    have hequiv : p.normalize ≈ k := Path.compare_eq_iff.1 hk
    rw [show k = q.normalize from hq] at hequiv ⊢
    exact Path.normalize_ext hequiv
  rw [hspelling]
  exact hread

/-! ### Loading -/

/-- What is loaded without a cache is read. -/
theorem wasRead_of_load (hfiles : files ∈ states) {stamp : Stamp} {text : String}
    (h : load files root .empty input = .ok (stamp, text)) :
    WasRead states root input stamp text := by
  rw [load] at h
  cases hstamp : files.stamp (root.join input) with
  | error e =>
    rw [hstamp] at h
    cases h
  | ok stamp' =>
    cases htext : files.text (root.join input) with
    | error e =>
      rw [hstamp, htext] at h
      cases h
    | ok text' =>
      rw [hstamp, htext] at h
      cases h
      exact ⟨files, hfiles, hstamp, htext⟩

/-- **A current cache does not show in what is loaded.** -/
theorem load_eq (h : Current files root cache) (p : Path) :
    load files root cache p.normalize = load files root .empty p.normalize := by
  rw [load, load]
  cases hstamp : files.stamp (root.join p.normalize) with
  | error e => rfl
  | ok stamp =>
    cases hfind : cache.find? p.normalize with
    | none => rfl
    | some entry =>
      obtain ⟨earlier, text⟩ := entry
      by_cases hsame : earlier = stamp
      · subst hsame
        have htext := h p earlier text hfind hstamp
        simp only [SortedMap.find?_empty, htext]
        show (if earlier = earlier then Except.ok (earlier, text) else _) = _
        rw [if_pos rfl]
        rfl
      · show (if earlier = stamp then Except.ok (stamp, text) else _) = _
        rw [if_neg hsame]
        rfl

theorem loadAll_eq (h : Current files root cache)
    (hinputs : ∀ input ∈ inputs, ∃ p : Path, input = p.normalize) :
    loadAll files root cache inputs = loadAll files root .empty inputs := by
  -- a text that is taken out of the cache leaves a current cache behind
  induction inputs generalizing cache with
  | nil => rfl
  | cons input rest ih =>
    obtain ⟨p, rfl⟩ := hinputs input List.mem_cons_self
    have hrest := fun input hmem => hinputs input (List.mem_cons_of_mem _ hmem)
    have herase : (SortedMap.empty : Cache).erase p.normalize = .empty := rfl
    rw [loadAll, loadAll, load_eq h, ih (h.erase _) hrest, herase]

/-- What is loaded without a cache belongs to the inputs, and was read. -/
theorem wasRead_of_loadAll (hfiles : files ∈ states)
    (h : loadAll files root .empty inputs = .ok loaded) :
    ∀ e ∈ loaded, e.1 ∈ inputs ∧ WasRead states root e.1 e.2.1 e.2.2 := by
  induction inputs generalizing loaded with
  | nil =>
    obtain rfl : [] = loaded := Except.ok.inj h
    simp
  | cons input rest ih =>
    have herase : (SortedMap.empty : Cache).erase input = .empty := rfl
    rw [loadAll, herase] at h
    cases hload : load files root .empty input with
    | error e =>
      rw [hload] at h
      cases h
    | ok first =>
      cases hrest : loadAll files root .empty rest with
      | error e =>
        rw [hload, hrest] at h
        cases h
      | ok others =>
        rw [hload, hrest] at h
        obtain rfl : (input, first) :: others = loaded := Except.ok.inj h
        intro e he
        rcases List.mem_cons.1 he with rfl | he
        · exact ⟨List.mem_cons_self, wasRead_of_load hfiles hload⟩
        · obtain ⟨hmem, hread⟩ := ih hrest e he
          exact ⟨List.mem_cons_of_mem _ hmem, hread⟩

/-! ### Bundling -/

variable {r : Request Cache}

/-- **A current token does not show in the answer.** -/
theorem bundle_eq (hcache : ∀ token, r.cache = some token → Current files root token)
    (hinputs : ∀ input ∈ r.inputs, ∃ p : Path, input = p.normalize) :
    bundle files root r = bundle files root { r with cache := none } := by
  have hcurrent : Current files root (r.cache.getD .empty) := by
    cases htoken : r.cache with
    | none => exact current_empty
    | some token => exact hcache token htoken
  rw [bundle, bundle, loadAll_eq hcurrent hinputs]
  rfl

/-- **The token of an answer is genuine.** -/
theorem genuine_of_bundle (hsep : StampsSeparate states) (hfiles : files ∈ states)
    (hcache : ∀ token, r.cache = some token → Genuine states root token)
    (hinputs : ∀ input ∈ r.inputs, ∃ p : Path, input = p.normalize) {emitted : Emitted Cache}
    (h : bundle files root r = .ok emitted) {token : Cache} (htoken : emitted.cache = some token) :
    Genuine states root token := by
  have hcurrent : ∀ token, r.cache = some token → Current files root token :=
    fun token htoken => (hcache token htoken).current hsep hfiles
  rw [bundle_eq hcurrent hinputs, bundle] at h
  rw [Option.getD_none] at h
  cases hload : loadAll files root .empty r.inputs with
  | error e =>
    rw [hload] at h
    cases h
  | ok loaded =>
    rw [hload] at h
    obtain rfl := Except.ok.inj h
    obtain rfl : SortedMap.ofList loaded = token := Option.some.inj htoken
    apply genuine_ofList
    intro e he
    obtain ⟨hmem, hread⟩ := wasRead_of_loadAll hfiles hload e he
    exact ⟨hinputs e.1 hmem, hread⟩

/-! ### Copies -/

/-- An input that can be read is loaded with its text. -/
theorem load_of_readable {stamp : Stamp} {text : String}
    (hstamp : files.stamp (root.join input) = .ok stamp)
    (htext : files.text (root.join input) = .ok text) :
    load files root .empty input = .ok (stamp, text) := by
  rw [load, hstamp, htext]
  rfl

/-- Inputs that can be read are loaded one by one. -/
theorem loadAll_of_readable
    (h : ∀ input ∈ inputs, ∃ stamp text, files.stamp (root.join input) = .ok stamp ∧
      files.text (root.join input) = .ok text) :
    ∃ loaded, loadAll files root .empty inputs = .ok loaded ∧
      List.Forall₂ (fun input e => e.1 = input ∧ files.text (root.join input) = .ok e.2.2)
        inputs loaded := by
  induction inputs with
  | nil => exact ⟨[], rfl, .nil⟩
  | cons input rest ih =>
    obtain ⟨stamp, text, hstamp, htext⟩ := h input List.mem_cons_self
    obtain ⟨loaded, hload, hforall⟩ := ih fun input hmem => h input (List.mem_cons_of_mem _ hmem)
    refine ⟨(input, stamp, text) :: loaded, ?_, .cons ⟨rfl, htext⟩ hforall⟩
    have herase : (SortedMap.empty : Cache).erase input = .empty := rfl
    rw [loadAll, load_of_readable hstamp htext, herase, hload]
    rfl

/-- Inputs with reserved names keep them. -/
theorem fileNames_of_reserved {reserved : SortedMap Path String} (taken : List String)
    (h : ∀ input ∈ inputs, ∃ name, reserved.find? input = some name) :
    List.Forall₂ (fun input name => reserved.find? input = some name) inputs
      (fileNames reserved taken inputs) := by
  induction inputs with
  | nil => exact .nil
  | cons input rest ih =>
    obtain ⟨name, hname⟩ := h input List.mem_cons_self
    rw [fileNames, hname]
    exact .cons hname (ih fun input hmem => h input (List.mem_cons_of_mem _ hmem))

/-- What is loaded belongs to the inputs, one by one. -/
theorem map_fst_loadAll (h : loadAll files root cache inputs = .ok loaded) :
    loaded.map (·.1) = inputs := by
  induction inputs generalizing cache loaded with
  | nil =>
    obtain rfl : [] = loaded := Except.ok.inj h
    rfl
  | cons input rest ih =>
    rw [loadAll] at h
    cases hload : load files root cache input with
    | error e =>
      rw [hload] at h
      cases h
    | ok first =>
      cases hrest : loadAll files root (cache.erase input) rest with
      | error e =>
        rw [hload, hrest] at h
        cases h
      | ok others =>
        rw [hload, hrest] at h
        obtain rfl : (input, first) :: others = loaded := Except.ok.inj h
        rw [List.map_cons, ih hrest]

/-- The chunk has the reserved name of the input, and its text. -/
def IsChunkOf (files : SourceFiles) (root : Path) (r : Request Cache) (input : Path)
    (c : Chunk) : Prop :=
  ∃ name text, r.outputNames.find? input = some name ∧ files.text (root.join input) = .ok text ∧
    c = chunk r.options.sourcemap input name text

theorem forall₂_chunks {loaded : List (Path × Stamp × String)} {names : List String}
    (hloaded : List.Forall₂ (fun input e => e.1 = input ∧
      files.text (root.join input) = .ok e.2.2) inputs loaded)
    (hnames : List.Forall₂ (fun input name => r.outputNames.find? input = some name) inputs
      names) :
    List.Forall₂ (IsChunkOf files root r) inputs
      (List.zipWith (fun (input, _, text) name => chunk r.options.sourcemap input name text)
        loaded names) := by
  induction hloaded generalizing names with
  | nil => exact .nil
  | @cons input e inputs loaded he _ ih =>
    obtain ⟨rfl, htext⟩ := he
    cases hnames with
    | cons hname hnames => exact .cons ⟨_, _, hname, htext, rfl⟩ (ih hnames)

/-- **Inputs that can be read, and have names, are copied one by one**, and nothing else is
emitted. -/
theorem bundle_of_readable (hcache : r.cache = none)
    (hread : ∀ input ∈ r.inputs, ∃ stamp text, files.stamp (root.join input) = .ok stamp ∧
      files.text (root.join input) = .ok text)
    (hnames : ∀ input ∈ r.inputs, ∃ name, r.outputNames.find? input = some name) :
    ∃ emitted, bundle files root r = .ok emitted ∧ emitted.assets = [] ∧
      List.Forall₂ (IsChunkOf files root r) r.inputs emitted.chunks := by
  obtain ⟨loaded, hload, hforall⟩ := loadAll_of_readable hread
  rw [bundle, hcache, Option.getD_none, hload]
  exact ⟨_, rfl, rfl, forall₂_chunks hforall (fileNames_of_reserved _ hnames)⟩

/-- The chunks of what is loaded have the given names, and the inputs as entries. -/
theorem map_zipWith_chunk {names : List String} (h : loaded.length = names.length) :
    let chunks := List.zipWith
      (fun (input, _, text) name => chunk r.options.sourcemap input name text) loaded names
    chunks.map (·.fileName) = names ∧
      List.Forall₂ (fun input c => c.entry = some input) (loaded.map (·.1)) chunks := by
  induction loaded generalizing names with
  | nil =>
    obtain rfl : names = [] := List.length_eq_zero_iff.1 h.symm
    exact ⟨rfl, .nil⟩
  | cons e rest ih =>
    cases names with
    | nil => cases h
    | cons name names =>
      obtain ⟨hnames, hentries⟩ := ih (Nat.succ.inj h)
      exact ⟨congrArg (name :: ·) hnames, .cons rfl hentries⟩

@[simp] theorem length_fileNames (reserved : SortedMap Path String) (taken : List String)
    (inputs : List Path) : (fileNames reserved taken inputs).length = inputs.length := by
  induction inputs generalizing taken with
  | nil => rfl
  | cons input rest ih =>
    rw [fileNames]
    split <;> simp [ih]

/-- **Whatever its token is, an answer has a chunk for each input**, with the name that is found for
it, and nothing else. -/
theorem chunks_of_bundle {emitted : Emitted Cache} (h : bundle files root r = .ok emitted) :
    emitted.assets = [] ∧
      emitted.chunks.map (·.fileName) =
        fileNames r.outputNames r.outputNames.values r.inputs ∧
      List.Forall₂ (fun input c => c.entry = some input) r.inputs emitted.chunks := by
  rw [bundle] at h
  cases hload : loadAll files root (r.cache.getD .empty) r.inputs with
  | error e =>
    rw [hload] at h
    cases h
  | ok loaded =>
    rw [hload] at h
    obtain rfl := Except.ok.inj h
    have hinputs := map_fst_loadAll hload
    have hlength : loaded.length =
        (fileNames r.outputNames r.outputNames.values r.inputs).length := by
      rw [length_fileNames, ← hinputs, List.length_map]
    obtain ⟨hnames, hentries⟩ := map_zipWith_chunk (r := r) hlength
    rw [hinputs] at hentries
    exact ⟨rfl, hnames, hentries⟩

/-- Where every input has a reserved name, the chunks have those. -/
theorem forall₂_chunks_of_bundle {emitted : Emitted Cache}
    (h : bundle files root r = .ok emitted)
    (hnames : ∀ input ∈ r.inputs, ∃ name, r.outputNames.find? input = some name) :
    emitted.assets = [] ∧
      List.Forall₂ (fun input c => r.outputNames.find? input = some c.fileName ∧
        c.entry = some input) r.inputs emitted.chunks := by
  obtain ⟨hassets, hfound, hentries⟩ := chunks_of_bundle h
  have hreserved := fileNames_of_reserved r.outputNames.values hnames
  rw [← hfound, List.forall₂_map_right_iff] at hreserved
  exact ⟨hassets, hreserved.mp (fun _ _ hname hentry => ⟨hname, hentry⟩) hentries⟩

end Passthrough

end PackageRouting
