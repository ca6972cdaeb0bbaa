/-
PackageRouting/Proofs/Disk/Change.lean

What the calls that change a disk do to it.

On a disk without links a call that succeeds changes the kind of the place of its
path and of no other (`becomes_of_makeDirectory`, `becomes_of_writeBytes`,
`becomes_of_remove`, `becomes_of_rename`).  What many calls do is then kept as
the places whose files they touch (`Touches`).
-/
import PackageRouting.Proofs.Disk.Place

namespace PackageRouting

open Node (Kind)

namespace Disk

variable {d d' d'' : Disk} {p : Path} {place : List String} {node : Node} {name : String}

/-! ### Slots -/

/-- What holds of the slot that is found for a path. -/
structure Slot.IsOf (s : Slot) (d : Disk) (p : Path) : Prop where
  checkPath : checkPath p.text = .ok ()
  walk : ∃ entries, walk d.top true linkLimit (d.origin p.text) (Disk.pieces p.text).dropLast =
    .ok (.node s.directory (.directory entries))
  pieces : Disk.pieces p.text = (Disk.pieces p.text).dropLast ++ [s.name]
  dot : s.name ≠ "."
  up : s.name ≠ ".."
  short : ¬ nameLimit < s.name.utf8ByteSize
  slash : s.slash = decide (p.text.toList.getLast? = some '/')

theorem isOf_of_slot {e : DiskError} {s : Slot} (h : d.slot e p = .ok s) : s.IsOf d p := by
  obtain ⟨_, hcheck, h⟩ := bind_eq_ok_iff.1 h
  obtain ⟨found, hwalk, h⟩ := bind_eq_ok_iff.1 h
  split at h
  · rename_i directory entries
    split at h
    · cases h
    · cases h
    · cases h
    · rename_i name hdot hup hlast
      split at h
      · cases h
      · rename_i hshort
        cases h
        obtain ⟨above, hall⟩ := List.getLast?_eq_some_iff.1 hlast
        have hpieces : Disk.pieces p.text = (Disk.pieces p.text).dropLast ++ [name] := by
          rw [hall, List.dropLast_concat]
        exact ⟨hcheck, ⟨entries, hwalk⟩, hpieces, hdot, hup, hshort, rfl⟩
  · cases h
  · cases h

/-- A slot is in a directory, at the place of its path. -/
theorem Slot.IsOf.isAt (hd : d.IsPlain) {s : Slot} (hs : s.IsOf d p) :
    d.top.kindAt? s.directory = some .directory ∧ s.directory ++ [s.name] = d.placeOf p := by
  obtain ⟨entries, hwalk⟩ := hs.walk
  obtain ⟨hplace, hat⟩ := walk_leads hd.linkless (hd.kindAt?_origin _) hwalk
  rw [← hplace] at hat
  refine ⟨Node.kindAt?_of_at? hat, ?_⟩
  rw [← foldl_leadPiece_pieces, hs.pieces, List.foldl_append, ← hplace]
  exact (leadPiece_name hs.dot hs.up _).symm

/-- Where directories stay, a file in the slot of a path without a slash at the end is read. -/
theorem Slot.IsOf.read {s : Slot} {bytes : List UInt8} {modified : Int} (hd : d.IsPlain)
    (hs : s.IsOf d p) (hslash : s.slash = false) (hwork : d'.workingDirectory = d.workingDirectory)
    (hstay : ∀ place, d.top.kindAt? place = some .directory →
      d'.top.kindAt? place = some .directory)
    (hfile : d'.top.kindAt? (s.directory ++ [s.name]) = some (.file bytes modified)) :
    d'.read p = .ok bytes := by
  obtain ⟨entries, hwalk⟩ := hs.walk
  have hsteps : Disk.steps p.text = (Disk.pieces p.text).dropLast ++ [s.name] := by
    rw [Disk.steps, if_neg (of_decide_eq_false (hs.slash ▸ hslash)), ← hs.pieces]
  refine read_eq_ok_iff.2 ⟨hs.checkPath, s.directory ++ [s.name], modified, ?_⟩
  rw [origin, hwork, hsteps]
  refine (walk_append hd.linkless hstay hwalk [s.name]).trans ?_
  rw [Disk.walk, if_neg hs.short, Node.kindAt?_eq_file_iff.1 hfile]
  · rfl
  · exact hs.dot
  · exact hs.up

/-! ### Calls -/

/-- A disk after a call that changes what stands at one place, with nothing below it before or
after. -/
structure Becomes (d : Disk) (place : List String) (kind : Option Kind) (d' : Disk) : Prop where
  before : d.top.kindAt? place ≠ some .directory
  linkless : ∀ target, kind ≠ some (.link target)
  kindAt? : d'.top.kindAt? = Function.update d.top.kindAt? place kind
  workingDirectory : d'.workingDirectory = d.workingDirectory
  now : d'.now = d.now

namespace Becomes

variable {kind : Option Kind}

theorem stays (h : d.Becomes place kind d') {other : List String}
    (hother : d.top.kindAt? other = some .directory) :
    d'.top.kindAt? other = some .directory := by
  have hne : other ≠ place := by
    rintro rfl
    exact h.before hother
  rw [h.kindAt?, Function.update_of_ne hne, hother]

theorem free (h : d.Becomes place kind d') (hkind : kind ≠ some .directory) {other : List String}
    (hother : d.top.kindAt? other ≠ some .directory) :
    d'.top.kindAt? other ≠ some .directory := by
  rw [h.kindAt?, Function.update_apply]
  split
  · exact hkind
  · exact hother

theorem isPlain (hd : d.IsPlain) (h : d.Becomes place kind d') : d'.IsPlain where
  linkless other target := by
    rw [h.kindAt?]
    by_cases hother : other = place
    · rw [hother, Function.update_self]
      exact h.linkless target
    · rw [Function.update_of_ne hother]
      exact hd.linkless other target
  workingDirectory := by
    rw [h.workingDirectory]
    exact h.stays hd.workingDirectory

end Becomes

section Entry

variable {directory : List String}

/-- Something without anything below it is put into a directory. -/
theorem becomes_put (hdirectory : d.top.kindAt? directory = some .directory)
    (hbefore : d.top.kindAt? (directory ++ [name]) ≠ some .directory)
    (hnode : ∀ rest ≠ [], node.at? rest = none) (hlink : ∀ target, node.kind ≠ .link target) :
    d.Becomes (directory ++ [name]) (some node.kind) (d.put directory name node) where
  before := hbefore
  linkless target h := hlink target (Option.some.inj h)
  kindAt? := Node.kindAt?_put hdirectory hbefore hnode
  workingDirectory := rfl
  now := rfl

/-- Something that is no directory is dropped from a directory. -/
theorem becomes_drop (hdirectory : d.top.kindAt? directory = some .directory)
    (hbefore : d.top.kindAt? (directory ++ [name]) ≠ some .directory) :
    d.Becomes (directory ++ [name]) none
      { d with top := d.top.change (Node.drop name) directory } where
  before := hbefore
  linkless _ := nofun
  kindAt? := Node.kindAt?_drop hdirectory hbefore
  workingDirectory := rfl
  now := rfl

end Entry

theorem at?_file_eq_none {bytes : List UInt8} {modified : Int} :
    ∀ rest ≠ [], (Node.file bytes modified).at? rest = none
  | [], h => absurd rfl h
  | _ :: _, _ => rfl

theorem at?_emptyDirectory_eq_none : ∀ rest ≠ [], (Node.directory []).at? rest = none
  | [], h => absurd rfl h
  | _ :: _, _ => rfl

/-- **A directory is made at the place of its path**, where nothing was. -/
theorem becomes_of_makeDirectory (hd : d.IsPlain) (h : d.makeDirectory p = .ok d') :
    d.top.kindAt? (d.placeOf p) = none ∧ d.Becomes (d.placeOf p) (some .directory) d' := by
  obtain ⟨s, hslot, h⟩ := bind_eq_ok_iff.1 h
  obtain ⟨hdirectory, hplace⟩ := (isOf_of_slot hslot).isAt hd
  split at h
  · cases h
  · rename_i hin
    cases h
    have hnone : d.top.kindAt? (s.directory ++ [s.name]) = none := Node.kindAt?_eq_none_iff.2 hin
    have hbefore : d.top.kindAt? (s.directory ++ [s.name]) ≠ some .directory := by simp [hnone]
    rw [← hplace]
    exact ⟨hnone, becomes_put hdirectory hbefore at?_emptyDirectory_eq_none (by simp [Node.kind])⟩

/-- **Bytes are written at the place of their path.** -/
theorem becomes_of_writeBytes {bytes : List UInt8} (hd : d.IsPlain)
    (h : d.writeBytes p bytes = .ok d') :
    d.Becomes (d.placeOf p) (some (.file bytes d.now)) d' := by
  obtain ⟨found, hfind, h⟩ := bind_eq_ok_iff.1 h
  have hleads := leads_of_find hd hfind
  split at h
  · rename_i directory name
    obtain ⟨hplace, hdirectory, hnone⟩ := hleads
    cases h
    rw [← hplace] at hnone ⊢
    have hbefore : d.top.kindAt? (directory ++ [name]) ≠ some .directory := by
      rw [Node.kindAt?_eq_none_iff.2 hnone]
      nofun
    exact becomes_put hdirectory hbefore at?_file_eq_none fun _ => nofun
  · obtain ⟨rfl, hat⟩ := hleads
    cases h
    have hbefore : d.top.kindAt? (d.placeOf p) ≠ some .directory := by
      rw [Node.kindAt?_of_at? hat]
      nofun
    exact ⟨hbefore, fun _ => nofun, Node.kindAt?_fill hat nofun, rfl, rfl⟩
  · cases h

/-- **A file is removed from the place of its path.** -/
theorem becomes_of_remove (hd : d.IsPlain) (h : d.remove p = .ok d') :
    d.Becomes (d.placeOf p) none d' := by
  obtain ⟨s, hslot, h⟩ := bind_eq_ok_iff.1 h
  obtain ⟨hdirectory, hplace⟩ := (isOf_of_slot hslot).isAt hd
  split at h
  · cases h
  · cases h
  · rename_i node hfree hin
    split at h
    · cases h
    · cases h
      rw [← hplace]
      refine becomes_drop hdirectory fun hkind => ?_
      obtain ⟨entries, hat⟩ := Node.kindAt?_eq_directory_iff.1 hkind
      rw [inSlot?, hat] at hin
      exact hfree entries (Option.some.inj hin).symm

/-- What is renamed is dropped from its slot and put into the other; if it is no directory, there is
none in that slot, and no slash asks for one. -/
theorem slots_of_rename {source target : Path} (h : d.rename source target = .ok d') :
    ∃ s t node, d.slot .busy source = .ok s ∧ d.slot .busy target = .ok t ∧
      d.inSlot? s = some node ∧
      (node.isDirectory = false →
        t.slash = false ∧ ∀ entries, d.inSlot? t ≠ some (.directory entries)) ∧
      d' = { d with top := d.top.change (Node.drop s.name) s.directory }.put t.directory t.name
        node := by
  obtain ⟨s, hsource, h⟩ := bind_eq_ok_iff.1 h
  obtain ⟨t, htarget, h⟩ := bind_eq_ok_iff.1 h
  cases hin : d.inSlot? s with
  | none =>
    rw [hin] at h
    cases h
  | some node =>
    refine ⟨s, t, node, hsource, htarget, hin, ?_⟩
    simp only [hin, bind, Except.bind] at h
    cases hnode : node.isDirectory with
    | true =>
      simp only [hnode, Bool.not_true, Bool.and_false, Bool.false_eq_true, if_false] at h
      refine ⟨nofun, ?_⟩
      split at h
      · exact (Except.ok.inj h).symm
      · cases h
      · exact (Except.ok.inj h).symm
    | false =>
      simp only [hnode, Bool.not_false, Bool.and_true, Bool.false_eq_true, if_false] at h
      split at h
      · cases h
      · rename_i hslash
        refine ⟨fun _ => ⟨by simpa using hslash, fun entries hentries => ?_⟩, ?_⟩
        · rw [hentries] at h
          cases h
        · split at h
          · cases h
          · exact (Except.ok.inj h).symm
          · exact (Except.ok.inj h).symm

/-- **A file is moved to the place of its new path**, and is read there. -/
theorem becomes_of_rename {source target : Path} {bytes : List UInt8} {modified : Int}
    (hd : d.IsPlain) (hfile : d.top.kindAt? (d.placeOf source) = some (.file bytes modified))
    (h : d.rename source target = .ok d') :
    ∃ without, d.Becomes (d.placeOf source) none without ∧
      without.Becomes (d.placeOf target) (some (.file bytes modified)) d' ∧
      d'.read target = .ok bytes := by
  obtain ⟨s, t, node, hsource, htarget, hin, hfree, rfl⟩ := slots_of_rename h
  have ht := isOf_of_slot htarget
  obtain ⟨hsdirectory, hsplace⟩ := (isOf_of_slot hsource).isAt hd
  obtain ⟨htdirectory, htplace⟩ := ht.isAt hd
  rw [← hsplace] at hfile ⊢
  rw [← htplace]
  obtain rfl : node = .file bytes modified :=
    Option.some.inj (hin.symm.trans (Node.kindAt?_eq_file_iff.1 hfile))
  obtain ⟨hslash, hfree⟩ := hfree rfl
  have hbefore : d.top.kindAt? (t.directory ++ [t.name]) ≠ some .directory := fun hkind =>
    have ⟨entries, hat⟩ := Node.kindAt?_eq_directory_iff.1 hkind
    hfree entries hat
  have hdrop := becomes_drop hsdirectory (by rw [hfile]; nofun)
  have hbelow : ∀ rest ≠ [], (Node.file bytes modified).at? rest = none := at?_file_eq_none
  have hput := becomes_put (hdrop.stays htdirectory) (hdrop.free nofun hbefore) hbelow
    fun _ => nofun
  have hnow := congrFun hput.kindAt? (t.directory ++ [t.name])
  rw [Function.update_self] at hnow
  exact ⟨_, hdrop, hput, ht.read hd hslash rfl (fun _ h => hput.stays (hdrop.stays h)) hnow⟩

/-! ### Files -/

/-- The file at a place, with its time. -/
def file? (d : Disk) (place : List String) : Option (List UInt8 × Int) :=
  match d.top.kindAt? place with
  | some (.file bytes modified) => some (bytes, modified)
  | _ => none

theorem file?_eq_some_iff {bytes : List UInt8} {modified : Int} :
    d.file? place = some (bytes, modified) ↔
      d.top.kindAt? place = some (.file bytes modified) := by
  unfold file?
  split <;> simp_all

theorem file?_congr (h : d'.top.kindAt? place = d.top.kindAt? place) :
    d'.file? place = d.file? place := by
  rw [file?, file?, h]

theorem file?_eq_none (h : ∀ bytes modified, d.top.kindAt? place ≠ some (.file bytes modified)) :
    d.file? place = none := by
  unfold file?
  split
  · exact absurd ‹_› (h _ _)
  · rfl

theorem file?_of_read {content : List UInt8} (hd : d.IsPlain) (h : d.read p = .ok content) :
    ∃ modified, d.file? (d.placeOf p) = some (content, modified) := by
  obtain ⟨modified, hfile⟩ := file_of_read hd h
  exact ⟨modified, file?_eq_some_iff.2 hfile⟩

namespace Becomes

theorem file?_of_none (h : d.Becomes place none d') : d'.file? place = none := by
  refine file?_eq_none fun _ _ => ?_
  rw [h.kindAt?, Function.update_self]
  nofun

theorem file?_of_file {bytes : List UInt8} {modified : Int}
    (h : d.Becomes place (some (.file bytes modified)) d') :
    d'.file? place = some (bytes, modified) := by
  rw [file?_eq_some_iff, h.kindAt?, Function.update_self]

theorem file?_of_ne {kind : Option Kind} (h : d.Becomes place kind d') {other : List String}
    (hother : other ≠ place) : d'.file? other = d.file? other := by
  refine file?_congr ?_
  rw [h.kindAt?, Function.update_of_ne hother]

end Becomes

/-- A disk after calls that touch the files of some places only: directories stay, and elsewhere
nothing changes but for directories that are new. -/
structure Touches (d : Disk) (places : List (List String)) (d' : Disk) : Prop where
  isPlain : d'.IsPlain
  workingDirectory : d'.workingDirectory = d.workingDirectory
  now : d'.now = d.now
  stays : ∀ place, d.top.kindAt? place = some .directory → d'.top.kindAt? place = some .directory
  elsewhere : ∀ place ∉ places, d'.top.kindAt? place = d.top.kindAt? place ∨
    d.top.kindAt? place = none ∧ d'.top.kindAt? place = some .directory

namespace Touches

variable {places places' : List (List String)} {kind : Option Kind}

theorem refl (hd : d.IsPlain) (places : List (List String)) : d.Touches places d :=
  ⟨hd, rfl, rfl, fun _ h => h, fun _ _ => .inl rfl⟩

theorem mono (h : d.Touches places d') (hplaces : places ⊆ places') : d.Touches places' d' :=
  { h with elsewhere := fun place hplace => h.elsewhere place fun hmem => hplace (hplaces hmem) }

theorem placeOf (h : d.Touches places d') (p : Path) : d'.placeOf p = d.placeOf p := by
  rw [Disk.placeOf, Disk.placeOf, h.workingDirectory]

/-- A call changes one of the places, or makes a directory. -/
theorem becomes (h : d.Touches places d') (hb : d'.Becomes place kind d'')
    (hplace : place ∈ places ∨ d'.top.kindAt? place = none ∧ kind = some .directory) :
    d.Touches places d'' where
  isPlain := hb.isPlain h.isPlain
  workingDirectory := hb.workingDirectory.trans h.workingDirectory
  now := hb.now.trans h.now
  stays other hother := hb.stays (h.stays other hother)
  elsewhere other hother := by
    have helse := h.elsewhere other hother
    rw [hb.kindAt?]
    by_cases hsame : other = place
    · -- nothing was here before, so nothing was here at first
      subst hsame
      obtain ⟨hnone, rfl⟩ := hplace.resolve_left hother
      rw [hnone] at helse
      rw [Function.update_self]
      exact .inr ⟨(helse.resolve_right fun hnew => nomatch hnew.2).symm, rfl⟩
    · rw [Function.update_of_ne hsame]
      exact helse

/-- **Files elsewhere stay as they are.** -/
theorem file?_eq (h : d.Touches places d') (hplace : place ∉ places) :
    d'.file? place = d.file? place := by
  rcases h.elsewhere place hplace with hsame | ⟨hnone, hdirectory⟩
  · exact file?_congr hsame
  · rw [file?_eq_none fun _ _ => by rw [hdirectory]; nofun,
      file?_eq_none fun _ _ => by rw [hnone]; nofun]

/-- A path that was read leads to the file that is at its place now. -/
theorem read_eq (h : d.Touches places d') (hd : d.IsPlain) {old bytes : List UInt8} {modified : Int}
    (hread : d.read p = .ok old) (hfile : d'.file? (d.placeOf p) = some (bytes, modified)) :
    d'.read p = .ok bytes :=
  read_persists hd h.workingDirectory h.stays (file?_eq_some_iff.1 hfile) hread

theorem file?_of_read (h : d.Touches places d') {content : List UInt8}
    (hread : d'.read p = .ok content) :
    ∃ modified, d'.file? (d.placeOf p) = some (content, modified) := by
  rw [← h.placeOf]
  exact Disk.file?_of_read h.isPlain hread

end Touches

end Disk

end PackageRouting
