/-
PackageRouting/Proofs/Passthrough/Names.lean

The names of the chunks that the copying bundler makes.

An input has the name that is reserved for it, or else one that is invented.
The invented ones are numbered past all taken names, and taken are from the
start all reserved names, whoever they are reserved for, and then the invented
ones so far.  So an invented name is none that an input further down the list
comes by later (`IsNameFor`, for whatever was taken at the start).

Main result: `chunkNames_of_bundle` (reserved names are kept, and no two chunks
of an answer have one name).
-/
import PackageRouting.Proofs.Passthrough
import PackageRouting.Proofs.Path.OutputName

namespace PackageRouting

namespace Passthrough

variable {reserved : SortedMap Path String} {taken : List String} {input : Path}
  {inputs : List Path} {name : String}

/-- The name that is reserved for an input or, where none is, a name that is not taken. -/
def IsNameFor (reserved : SortedMap Path String) (taken : List String) (input : Path)
    (name : String) : Prop :=
  reserved.find? input = some name ∨ (reserved.find? input = none ∧ name ∉ taken)

theorem IsNameFor.of_cons {other : String} (h : IsNameFor reserved (other :: taken) input name) :
    IsNameFor reserved taken input name :=
  h.imp_right fun h => ⟨h.1, fun hmem => h.2 (List.mem_cons_of_mem _ hmem)⟩

/-- **Each input has its reserved name, or one that was not taken.** -/
theorem forall₂_fileNames (reserved : SortedMap Path String) (taken : List String)
    (inputs : List Path) :
    List.Forall₂ (IsNameFor reserved taken) inputs (fileNames reserved taken inputs) := by
  induction inputs generalizing taken with
  | nil => exact .nil
  | cons input rest ih =>
    rw [fileNames]
    split
    · next name hname => exact .cons (.inl hname) (ih taken)
    · next hnone =>
      refine .cons (.inr ⟨hnone, Path.uniqueOutputName_notMem input taken⟩) ?_
      exact (ih _).imp fun _ _ => IsNameFor.of_cons

theorem exists_of_mem_right {α β : Type} {R : α → β → Prop} {l : List α} {l' : List β} {b : β}
    (h : List.Forall₂ R l l') (hb : b ∈ l') : ∃ a ∈ l, R a b := by
  induction h with
  | nil => cases hb
  | cons hR _ ih =>
    rcases List.mem_cons.1 hb with rfl | hb
    · exact ⟨_, List.mem_cons_self, hR⟩
    · obtain ⟨a, ha, hab⟩ := ih hb
      exact ⟨a, List.mem_cons_of_mem _ ha, hab⟩

/-- **No two inputs have one name.** -/
theorem nodup_fileNames
    (hinjective : ∀ q q' name, reserved.find? q = some name → reserved.find? q' = some name →
      q ≈ q')
    (hinputs : inputs.Pairwise fun p q => ¬ p ≈ q) (htaken : reserved.values ⊆ taken) :
    (fileNames reserved taken inputs).Nodup := by
  induction inputs generalizing taken with
  | nil => exact List.nodup_nil
  | cons input rest ih =>
    obtain ⟨hfirst, hrest⟩ := List.pairwise_cons.1 hinputs
    have hvalue : ∀ {q name}, reserved.find? q = some name → name ∈ taken := fun hq =>
      htaken (SortedMap.mem_values_iff.2 ⟨_, hq⟩)
    rw [fileNames]
    split
    · next name hname =>
      refine List.nodup_cons.2 ⟨fun hmem => ?_, ih hrest htaken⟩
      obtain ⟨other, hother, hreserved | ⟨-, hfree⟩⟩ :=
        exists_of_mem_right (forall₂_fileNames _ _ rest) hmem
      · exact hfirst other hother (hinjective _ _ name hname hreserved)
      · exact hfree (hvalue hname)
    · refine List.nodup_cons.2 ⟨fun hmem => ?_, ih hrest (List.subset_cons_of_subset _ htaken)⟩
      obtain ⟨other, -, hreserved | ⟨-, hfree⟩⟩ :=
        exists_of_mem_right (forall₂_fileNames _ _ rest) hmem
      -- a reserved name is taken from the start, and an invented one when it is invented
      · exact Path.uniqueOutputName_notMem input taken (hvalue hreserved)
      · exact hfree List.mem_cons_self

variable {files : SourceFiles} {root : Path} {r : Request Cache} {emitted : Emitted Cache}

/-- **The names of chunks never clash.**  An answer has one chunk for each input, in the order of
the inputs and with the input as its entry.  An input with a reserved name has that name; any other
has one that is reserved for nobody; and no two chunks have one name. -/
theorem chunkNames_of_bundle (hinputs : r.inputs.Pairwise fun p q => ¬ p ≈ q)
    (hinjective : ∀ q q' name, r.outputNames.find? q = some name →
      r.outputNames.find? q' = some name → q ≈ q')
    (h : bundle files root r = .ok emitted) :
    List.Forall₂ (fun input c => c.entry = some input ∧
      (∀ name, r.outputNames.find? input = some name → c.fileName = name) ∧
      (r.outputNames.find? input = none → ∀ q, r.outputNames.find? q ≠ some c.fileName))
      r.inputs emitted.chunks ∧
    (emitted.chunks.map (·.fileName)).Nodup := by
  obtain ⟨-, hnames, hentries⟩ := chunks_of_bundle h
  have hfound := forall₂_fileNames r.outputNames r.outputNames.values r.inputs
  rw [← hnames, List.forall₂_map_right_iff] at hfound
  constructor
  · refine hentries.mp (fun input c hentry hname => ⟨hentry, ?_⟩) hfound
    rcases hname with hreserved | ⟨hnone, hfree⟩
    · rw [hreserved]
      exact ⟨fun _ => Option.some.inj, fun hnone => by cases hnone⟩
    · refine ⟨fun name hname => ?_, fun _ q hq => hfree (SortedMap.mem_values_iff.2 ⟨q, hq⟩)⟩
      rw [hnone] at hname
      cases hname
  · rw [hnames]
    exact nodup_fileNames hinjective hinputs (List.Subset.refl _)

/-- Files that all read as the empty text. -/
def emptyFiles : SourceFiles := ⟨fun _ => .ok ⟨0, 0⟩, fun _ => .ok ""⟩

/-- A request for three files of one stem.  The last has the first numbered name, and the name
without a number is reserved for a file that is not asked for. -/
def clashingRequest : Request Cache where
  bucket := .shared
  inputs := [⟨"a/x.js"⟩, ⟨"b/x.ts"⟩, ⟨"c/x.js"⟩]
  outputNames := .ofList [(⟨"c/x.js"⟩, "x2.js"), (⟨"d/x.js"⟩, "x.js")]
  outDir := ⟨"_site"⟩
  options := .resolve {} true
  cache := none

/-- The names that are invented are numbered past both. -/
theorem chunkNames_of_bundle_clashing :
    clashingRequest.inputs.Pairwise (fun p q => ¬ p ≈ q) ∧
    (∀ q q' name, clashingRequest.outputNames.find? q = some name →
      clashingRequest.outputNames.find? q' = some name → q ≈ q') ∧
    ∃ emitted, bundle emptyFiles ⟨"."⟩ clashingRequest = .ok emitted ∧
      emitted.chunks.map (·.fileName) = ["x3.js", "x4.js", "x2.js"] ∧
      (emitted.chunks.map (·.fileName)).Nodup := by
  have hinputs : clashingRequest.inputs.Pairwise (fun p q => ¬ p ≈ q) := by decide +kernel
  have hinjective : ∀ q q' name, clashingRequest.outputNames.find? q = some name →
      clashingRequest.outputNames.find? q' = some name → q ≈ q' := by
    intro q q' name hq hq'
    obtain ⟨k, hk, hmem⟩ := SortedMap.find?_eq_some_iff.1 hq
    obtain ⟨k', hk', hmem'⟩ := SortedMap.find?_eq_some_iff.1 hq'
    have hentries : clashingRequest.outputNames.entries =
        [(⟨"c/x.js"⟩, "x2.js"), (⟨"d/x.js"⟩, "x.js")] := by
      decide +kernel
    obtain rfl : k' = k := by
      rw [hentries, List.mem_pair, Prod.mk.injEq, Prod.mk.injEq] at hmem hmem'
      rcases hmem with ⟨rfl, rfl⟩ | ⟨rfl, rfl⟩ <;> simpa using hmem'
    exact Path.equiv_trans (Path.compare_eq_iff.1 hk) (Path.equiv_symm (Path.compare_eq_iff.1 hk'))
  have hchunks : (bundle emptyFiles ⟨"."⟩ clashingRequest).toOption.map
      (fun emitted => emitted.chunks.map (·.fileName)) = some ["x3.js", "x4.js", "x2.js"] := by
    decide +kernel
  cases hok : bundle emptyFiles ⟨"."⟩ clashingRequest with
  | error e =>
    rw [hok] at hchunks
    cases hchunks
  | ok emitted =>
    rw [hok] at hchunks
    exact ⟨hinputs, hinjective, emitted, rfl, Option.some.inj hchunks,
      (chunkNames_of_bundle hinputs hinjective hok).2⟩

end Passthrough

end PackageRouting
