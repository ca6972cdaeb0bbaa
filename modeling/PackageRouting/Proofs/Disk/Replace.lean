/-
PackageRouting/Proofs/Disk/Replace.lean

Nobody sees half of a file that is written all at once.

The bytes are put aside in a sibling, which stands at another place than the
path (`placeOf_siblingOf_ne`).  Until the sibling is renamed no file elsewhere is
touched (`ensures_makeDirectories`, `ensures_fill`), and to rename it is a single
call (`ensures_settle`).  So at any moment, whichever calls fail, the old file or
the new one stands at the place of the path.

Main result: `Script.replace_allOrNothing`.
-/
import PackageRouting.Disk.Replace
import PackageRouting.Proofs.Disk.Change
import PackageRouting.Proofs.Disk.Faults
import PackageRouting.Proofs.Path.OutputName

namespace PackageRouting

namespace Script

variable {d d' : Disk} {p : Path} {process : Nat} {bytes : List UInt8} {events : List Event}

/-! ### The sibling -/

/-- The name of the sibling. -/
def siblingName (process : Nat) (p : Path) : String :=
  "." ++ p.fileName?.getD "out" ++ ".partial." ++ toString process

theorem length_siblingName (process : Nat) (p : Path) :
    (p.fileName?.getD "out").toList.length + 10 ≤ (siblingName process p).toList.length := by
  simp only [siblingName, String.toList_append, List.length_append]
  have hdot : ".".toList.length = 1 := rfl
  have hpartial : ".partial.".toList.length = 9 := rfl
  omega

theorem isProperName_siblingName (process : Nat) (p : Path) :
    Component.IsProperName (siblingName process p) := by
  have hlength := length_siblingName process p
  have hne : ∀ s : String, s.toList.length < 10 → siblingName process p ≠ s := by
    rintro s hs rfl
    omega
  refine ⟨hne "" (by decide), hne "." (by decide), hne ".." (by decide), ?_⟩
  have hname : '/' ∉ (p.fileName?.getD "out").toList := by
    cases h : p.fileName? with
    | none => decide
    | some name => exact (Path.isProperName_of_fileName? h).2.2.2
  simp only [siblingName, String.toList_append, List.mem_append, not_or]
  exact ⟨⟨⟨by decide, hname⟩, by decide⟩, Path.slash_notMem_toString process⟩

/-- The directory of a path is where all components but the last lead. -/
theorem placeOf_parentDirectory (d : Disk) (p : Path) :
    d.placeOf (parentDirectory p) =
      p.components.dropLast.foldl Component.lead d.workingDirectory := by
  rw [← Path.components_parent, Disk.placeOf, parentDirectory]
  cases p.parent? with
  | none => rfl
  | some above =>
    dsimp only [Option.getD_some]
    by_cases hempty : above.text = ""
    · rw [if_pos (String.isEmpty_iff.2 hempty), Path.components_of_text_eq_empty hempty]
      rfl
    · rw [if_neg (by simpa using hempty)]

theorem placeOf_siblingOf (d : Disk) (process : Nat) (p : Path) :
    d.placeOf (siblingOf process p) = d.placeOf (parentDirectory p) ++ [siblingName process p] := by
  have hname := Path.components_of_isProperName (isProperName_siblingName process p)
  have hjoin : siblingOf process p = (parentDirectory p).join ⟨siblingName process p⟩ := rfl
  rw [hjoin, Disk.placeOf, Path.components_join_names (by simp [hname, Component.isName]), hname,
    List.foldl_append]
  rfl

/-- **The sibling stands at another place than the path.** -/
theorem placeOf_siblingOf_ne (d : Disk) (process : Nat) (p : Path) :
    d.placeOf (siblingOf process p) ≠ d.placeOf p := by
  rw [placeOf_siblingOf, placeOf_parentDirectory]
  rcases List.eq_nil_or_concat p.components with hnil | ⟨front, last, hlast⟩
  · rw [Disk.placeOf, hnil]
    simp
  · rw [List.concat_eq_append] at hlast
    rw [Disk.placeOf, hlast, List.dropLast_concat, List.foldl_append]
    -- the last component leads at most as far as its directory, or to another name in it
    generalize front.foldl Component.lead d.workingDirectory = directory
    intro heq
    have hlength := congrArg List.length heq
    cases last with
    | root => simp [Component.lead] at hlength
    | here => simp [Component.lead] at hlength
    | up =>
      simp [Component.lead] at hlength
      omega
    | name t =>
      have hname : p.fileName? = some t := by
        rw [Path.fileName?, hlast, List.getLast?_concat]
      have hlong := length_siblingName process p
      have ht : siblingName process p = t := by simpa [Component.lead] using heq
      rw [ht, hname, Option.getD_some] at hlong
      omega

/-! ### Making the directories -/

/-- The calls of which the making of directories consists. -/
def MakesDirectories : Call → Prop
  | .makeDirectory _ | .status _ => True
  | _ => False

theorem uses_isDirectory (p : Path) : (isDirectory p).Uses MakesDirectories := by
  refine ⟨trivial, fun answer => ?_⟩
  change Except DiskError Status at answer
  cases answer with
  | ok s => trivial
  | error e => trivial

theorem uses_makeLineage (paths : List Path) : (makeLineage paths).Uses MakesDirectories := by
  induction paths with
  | nil => trivial
  | cons p above ih =>
    have hsettle : ∀ e, (do return if ← isDirectory p then .ok () else .error e :
        Script (Except DiskError Unit)).Uses MakesDirectories := fun e =>
      (uses_isDirectory p).andThen fun _ => trivial
    refine ⟨trivial, fun answer => ?_⟩
    change Except DiskError Unit at answer
    cases answer with
    | ok => trivial
    | error e =>
      cases e with
      | notFound =>
        refine ih.andThen fun made => ?_
        cases made with
        | error e => trivial
        | ok =>
          -- the directories above are there now, and the directory itself is tried again
          refine ⟨trivial, fun answer => ?_⟩
          change Except DiskError Unit at answer
          cases answer with
          | ok => trivial
          | error e => exact hsettle e
      | _ => exact hsettle _

/-- Directories that are made touch no files. -/
theorem ensures_makeDirectories (hd : d.IsPlain) (p : Path) :
    (makeDirectories p).Ensures (d.Touches [])
      (fun events _ _ => ∀ event ∈ events, MakesDirectories event.call) [] d := by
  refine Ensures.of_uses (uses_makeLineage _) (fun c hc here hhere => ?_) (.refl hd []) nofun
  cases c with
  | makeDirectory q =>
    refine ⟨fun d' hpass => ?_, fun answer d' hanswer => ?_⟩
    · cases hpass
      exact hhere
    · cases hanswer.outcome with
      | done hmade =>
        obtain ⟨hnone, hbecomes⟩ := Disk.becomes_of_makeDirectory hhere.isPlain hmade
        exact hhere.becomes hbecomes (.inr ⟨hnone, rfl⟩)
      | failed hpass =>
        cases hpass
        exact hhere
  | status q =>
    refine ⟨fun d' hpass => ?_, fun answer d' hanswer => ?_⟩
    · cases hpass
      exact hhere
    · obtain rfl : d' = here := hanswer.outcome
      exact hhere
  | _ => exact hc.elim

/-! ### Filling the sibling -/

/-- No call has renamed anything. -/
def NoRename (events : List Event) : Prop :=
  ∀ event ∈ events, ∀ source target, event.call ≠ .rename source target

theorem NoRename.snoc (h : NoRename events) {c : Call}
    (hc : ∀ source target, c ≠ .rename source target) (answer : c.Answer) :
    NoRename (events ++ [⟨c, answer⟩]) := by
  intro event hevent
  rcases List.mem_append.1 hevent with hbefore | hlast
  · exact h event hbefore
  · obtain rfl := List.mem_singleton.1 hlast
    exact hc

section Fill

variable {here : Disk} {q : Path}

/-- A call that writes a file touches its place only. -/
theorem touches_of_writeBytes (hhere : d.Touches [d.placeOf q] here)
    (hwrite : here.writeBytes q bytes = .ok d') :
    d.Touches [d.placeOf q] d' ∧ d'.file? (d.placeOf q) = some (bytes, d.now) := by
  have hbecomes := Disk.becomes_of_writeBytes hhere.isPlain hwrite
  rw [hhere.placeOf, hhere.now] at hbecomes
  exact ⟨hhere.becomes hbecomes (.inl List.mem_cons_self), hbecomes.file?_of_file⟩

theorem ensures_create (hhere : d.Touches [d.placeOf q] here) (hevents : NoRename events) :
    (create q).Ensures (d.Touches [d.placeOf q]) (fun events _ _ => NoRename events)
      events here := by
  refine .call (fun d' hpass => ?_) fun answer d' hanswer =>
    .done ?_ (hevents.snoc (c := .create q) (fun _ _ => nofun) answer)
  · cases hpass
    exact hhere
  · cases hanswer.outcome with
    | done hcreate => exact (touches_of_writeBytes hhere hcreate).1
    | failed hpass =>
      cases hpass
      exact hhere

theorem ensures_write (hhere : d.Touches [d.placeOf q] here) (hevents : NoRename events) :
    (write q bytes).Ensures (d.Touches [d.placeOf q]) (fun events result d' => NoRename events ∧
      (result = .ok () → d'.file? (d.placeOf q) = some (bytes, d.now))) events here := by
  have hpasses : ∀ d', (Call.write q bytes).Passes here d' → d.Touches [d.placeOf q] d' := by
    intro d' hpass
    cases hpass with
    | start => exact hhere
    | storing count hwrite => exact (touches_of_writeBytes hhere hwrite).1
  refine .call hpasses fun answer d' hanswer => ?_
  have hlater := hevents.snoc (c := .write q bytes) (fun _ _ => nofun) answer
  cases hanswer.outcome with
  | done hwrite =>
    obtain ⟨htouches, hfile⟩ := touches_of_writeBytes hhere hwrite
    exact .done htouches ⟨hlater, fun _ => hfile⟩
  | failed hpass => exact .done (hpasses d' hpass) ⟨hlater, nofun⟩

theorem ensures_sync {inv : Disk → Prop} (hhere : inv here) (hevents : NoRename events) :
    (sync q).Ensures inv (fun events _ d' => NoRename events ∧ d' = here) events here := by
  refine .call (fun d' hpass => ?_) fun answer d' hanswer => ?_
  · cases hpass
    exact hhere
  · obtain rfl : d' = here := hanswer.outcome
    exact .done hhere ⟨hevents.snoc (c := .sync q) (fun _ _ => nofun) answer, rfl⟩

/-- **A file that is filled touches its place only, and holds the bytes when it is filled.** -/
theorem ensures_fill (hhere : d.Touches [d.placeOf q] here) (hevents : NoRename events) :
    (fill q bytes).run.Ensures (d.Touches [d.placeOf q])
      (fun events result d' => NoRename events ∧
        (result = .ok () → d'.file? (d.placeOf q) = some (bytes, d.now))) events here := by
  refine (ensures_create hhere hevents).bindExcept (fun _ _ _ h => ⟨h, nofun⟩) ?_
  intro events _ here hhere hevents
  refine (ensures_write hhere hevents).bindExcept (fun _ _ _ h => ⟨h.1, nofun⟩) ?_
  rintro events _ here hhere ⟨hevents, hfile⟩
  refine (ensures_sync hhere hevents).mono (fun _ h => h) ?_
  rintro events result d' - ⟨hevents, rfl⟩
  exact ⟨hevents, fun _ => hfile rfl⟩

end Fill

/-! ### Renaming it -/

/-- What is seen of a disk while a file is replaced. -/
structure Untorn (process : Nat) (p : Path) (bytes : List UInt8) (d d' : Disk) : Prop where
  touches : d.Touches [d.placeOf (siblingOf process p), d.placeOf p] d'
  target : d'.file? (d.placeOf p) = d.file? (d.placeOf p) ∨
    d'.file? (d.placeOf p) = some (bytes, d.now)

/-- What a disk is like when a file was replaced, or was not. -/
structure Settled (process : Nat) (p : Path) (bytes : List UInt8) (d : Disk) (events : List Event)
    (result : Except DiskError Unit) (d' : Disk) : Prop where
  done : result = .ok () → d'.file? (d.placeOf p) = some (bytes, d.now) ∧
    d'.read p = .ok bytes ∧ d'.file? (d.placeOf (siblingOf process p)) = none
  failed : ∀ e, result = .error e → d'.file? (d.placeOf p) = d.file? (d.placeOf p)
  cleared : ∀ e, ⟨.rename (siblingOf process p) p, .error e⟩ ∈ events →
    (∀ e, ⟨.remove (siblingOf process p), .error e⟩ ∉ events) →
      d'.file? (d.placeOf (siblingOf process p)) = none

/-- Puts the sibling at the path, or removes it. -/
def settle (process : Nat) (p : Path) : ExceptT DiskError Script Unit := do
  match ← ExceptT.lift (rename (siblingOf process p) p) with
  | .ok () => return ()
  | .error e =>
    let _ ← ExceptT.lift (remove (siblingOf process p))
    throw e

section Settle

variable {here : Disk}

theorem file?_target (hhere : d.Touches [d.placeOf (siblingOf process p)] here) :
    here.file? (d.placeOf p) = d.file? (d.placeOf p) := by
  refine hhere.file?_eq ?_
  rw [List.mem_singleton]
  exact (placeOf_siblingOf_ne d process p).symm

theorem untorn_of_touches (hhere : d.Touches [d.placeOf (siblingOf process p)] here) :
    Untorn process p bytes d here :=
  ⟨hhere.mono (by simp), .inl (file?_target hhere)⟩

/-- Before anything is renamed a failure leaves the file as it was. -/
theorem settled_of_touches (hhere : d.Touches [d.placeOf (siblingOf process p)] here)
    (hevents : NoRename events) (e : DiskError) :
    Settled process p bytes d events (.error e) here :=
  ⟨nofun, fun _ _ => file?_target hhere, fun _ hrename => absurd rfl (hevents _ hrename _ _)⟩

/-- **To settle is to put the file there in one call, or to leave everything.** -/
theorem ensures_settle (hhere : d.Touches [d.placeOf (siblingOf process p)] here)
    (hfile : here.file? (d.placeOf (siblingOf process p)) = some (bytes, d.now)) :
    (settle process p).run.Ensures (Untorn process p bytes d) (Settled process p bytes d)
      events here := by
  have hne := placeOf_siblingOf_ne d process p
  have huntorn : Untorn process p bytes d here := untorn_of_touches hhere
  refine .call (fun d' hpass => ?_) fun answer d' hanswer => ?_
  · cases hpass
    exact huntorn
  cases hanswer.outcome with
  | done hrename =>
    rw [← hhere.placeOf, Disk.file?_eq_some_iff] at hfile
    obtain ⟨without, hdrop, hput, hread⟩ := Disk.becomes_of_rename hhere.isPlain hfile hrename
    rw [hhere.placeOf] at hdrop hput
    have htarget := hput.file?_of_file
    have haside := (hput.file?_of_ne hne).trans hdrop.file?_of_none
    have htouches := (huntorn.touches.becomes hdrop (by simp)).becomes hput (by simp)
    exact .done ⟨htouches, .inr htarget⟩
      ⟨fun _ => ⟨htarget, hread, haside⟩, nofun, fun _ _ _ => haside⟩
  | failed hpass =>
    cases hpass
    -- the sibling is removed, or that fails too
    refine .call (fun d' hpass => ?_) fun answer d' hanswer => ?_
    · cases hpass
      exact huntorn
    cases hanswer.outcome with
    | done hremove =>
      have hdrop := Disk.becomes_of_remove hhere.isPlain hremove
      rw [hhere.placeOf] at hdrop
      have htouches := hhere.becomes hdrop (.inl List.mem_cons_self)
      exact .done (untorn_of_touches htouches)
        ⟨nofun, fun _ _ => file?_target htouches, fun _ _ _ => hdrop.file?_of_none⟩
    | failed hpass =>
      cases hpass
      exact .done huntorn ⟨nofun, fun _ _ => file?_target hhere,
        fun _ _ hkept => absurd (List.mem_append_right _ List.mem_cons_self) (hkept _)⟩

end Settle

/-- **Replacing a file tears nothing**, whichever calls fail. -/
theorem ensures_replace (hd : d.IsPlain) (process : Nat) (p : Path) (bytes : List UInt8) :
    (replace process p bytes).run.Ensures (Untorn process p bytes d) (Settled process p bytes d)
      [] d := by
  have hsplit : replace process p bytes =
      (ExceptT.mk (makeDirectories (parentDirectory p)) >>= fun _ =>
        fill (siblingOf process p) bytes >>= fun _ => settle process p) := rfl
  have hmake : (ExceptT.mk (makeDirectories (parentDirectory p))).run.Ensures
      (Untorn process p bytes d) (fun events _ d' =>
        d.Touches [d.placeOf (siblingOf process p)] d' ∧ NoRename events) [] d := by
    rw [ExceptT.run_mk]
    refine (ensures_makeDirectories hd (parentDirectory p)).mono
      (fun _ htouches => untorn_of_touches (htouches.mono (List.nil_subset _)))
      fun events _ _ htouches hmakes =>
        ⟨htouches.mono (List.nil_subset _), fun event hevent source target hrename => ?_⟩
    have hcall := hmakes event hevent
    rw [hrename] at hcall
    exact hcall
  rw [hsplit]
  refine hmake.bindExcept (fun _ e _ h => settled_of_touches h.1 h.2 e) ?_
  rintro events _ here - ⟨hhere, hevents⟩
  refine ((ensures_fill hhere hevents).mono (fun _ htouches => untorn_of_touches htouches)
    fun _ _ _ htouches hfilled => And.intro htouches hfilled).bindExcept
      (fun _ e _ h => settled_of_touches h.1 h.2.1 e) ?_
  rintro events _ here - ⟨hhere, -, hfile⟩
  exact ensures_settle hhere (hfile rfl)

/-! ### The main result -/

/-- **Main result.**  On a disk without links, whichever calls fail: at any moment of the
replacement the old file or the new one stands at the place of the path, and nothing else is read
there; no other file is touched but the sibling.  An error leaves the old file, and success the new
one; the sibling is gone after success, and after a failed renaming unless its removal fails. -/
theorem replace_allOrNothing (process : Nat) (p : Path) (bytes : List UInt8) (d : Disk)
    (hd : d.IsPlain) :
    let s := (replace process p bytes).run
    let sibling := siblingOf process p
    d.placeOf sibling ≠ d.placeOf p ∧
      (∀ d', s.Sees d d' →
        (d'.file? (d.placeOf p) = d.file? (d.placeOf p) ∨
          d'.file? (d.placeOf p) = some (bytes, d.now)) ∧
        (∀ old, d.read p = .ok old → d'.read p = .ok old ∨ d'.read p = .ok bytes) ∧
        (∀ content, d'.read p = .ok content →
          content = bytes ∨ ∃ modified, d.file? (d.placeOf p) = some (content, modified)) ∧
        ∀ place, place ≠ d.placeOf p → place ≠ d.placeOf sibling →
          d'.file? place = d.file? place) ∧
      ∀ events result d', s.Returns d events result d' →
        (result = .ok () → d'.file? (d.placeOf p) = some (bytes, d.now) ∧
          d'.read p = .ok bytes ∧ d'.file? (d.placeOf sibling) = none) ∧
        (∀ e, result = .error e → d'.file? (d.placeOf p) = d.file? (d.placeOf p) ∧
          (∀ old, d.read p = .ok old → d'.read p = .ok old) ∧
          ∀ content, d'.read p = .ok content →
            ∃ modified, d.file? (d.placeOf p) = some (content, modified)) ∧
        ∀ e, ⟨.rename sibling p, .error e⟩ ∈ events →
          (∀ e, ⟨.remove sibling, .error e⟩ ∉ events) → d'.file? (d.placeOf sibling) = none := by
  intro s sibling
  have hensures := ensures_replace hd process p bytes
  refine ⟨placeOf_siblingOf_ne d process p, fun d' hsees => ?_,
    fun events result d' hreturns => ?_⟩
  · obtain ⟨htouches, htarget⟩ := hensures.sees hsees
    refine ⟨htarget, fun old hread => ?_, fun content hread => ?_, fun place hp haside => ?_⟩
    · obtain ⟨modified, hold⟩ := Disk.file?_of_read hd hread
      rcases htarget with hsame | hnew
      · exact .inl (htouches.read_eq hd hread (hsame.trans hold))
      · exact .inr (htouches.read_eq hd hread hnew)
    · obtain ⟨modified, hcontent⟩ := htouches.file?_of_read hread
      rcases htarget with hsame | hnew
      · exact .inr ⟨modified, hsame.symm.trans hcontent⟩
      · rw [hcontent] at hnew
        exact .inl (congrArg Prod.fst (Option.some.inj hnew))
    · exact htouches.file?_eq (by simpa using ⟨haside, hp⟩)
  · have hsettled := hensures.returns hreturns
    have htouches := (hensures.sees (.after hreturns)).touches
    refine ⟨hsettled.done, fun e he => ?_, hsettled.cleared⟩
    have hsame := hsettled.failed e he
    refine ⟨hsame, fun old hread => ?_, fun content hread => ?_⟩
    · obtain ⟨modified, hold⟩ := Disk.file?_of_read hd hread
      exact htouches.read_eq hd hread (hsame.trans hold)
    · obtain ⟨modified, hcontent⟩ := htouches.file?_of_read hread
      exact ⟨modified, hsame.symm.trans hcontent⟩

/-! ### A file in a directory -/

/-- A disk with a file in a directory. -/
def libraryDisk : Disk where
  top := .directory [("lib", .directory [("a.js", .file [49] 3)])]
  now := 7

theorem isPlain_libraryDisk : libraryDisk.IsPlain where
  linkless place target := by
    rcases place with _ | ⟨name, _ | ⟨inner, rest⟩⟩
    · nofun
    · simp only [libraryDisk, Node.kindAt?, Node.at?, Node.child?, Node.entryIn?]
      split <;> simp [Node.kind]
    · simp only [libraryDisk, Node.kindAt?, Node.at?, Node.child?, Node.entryIn?]
      split
      · simp only [Node.entryIn?, Option.bind_some]
        split
        · cases rest <;> simp [Node.at?, Node.kind, Node.child?]
        · simp
      · simp
  workingDirectory := rfl

/-- What a disk makes of the texts of the paths that are called. -/
theorem texts_library :
    siblingOf 42 ⟨"lib/a.js"⟩ = ⟨"lib/.a.js.partial.42"⟩ ∧
      lineage 2 (parentDirectory ⟨"lib/a.js"⟩) = [⟨"lib"⟩] ∧
      (∀ text ∈ ["lib", "lib/a.js", "lib/.a.js.partial.42"],
        Disk.checkPath text = .ok () ∧ Disk.startsAtTop text = false ∧
          Disk.steps text = Disk.pieces text) ∧
      Disk.pieces "lib" = ["lib"] ∧ Disk.pieces "lib/a.js" = ["lib", "a.js"] ∧
      Disk.pieces "lib/.a.js.partial.42" = ["lib", ".a.js.partial.42"] ∧
      ∀ name ∈ ["lib", "a.js", ".a.js.partial.42"], ¬ Disk.nameLimit < name.utf8ByteSize := by
  decide +kernel

theorem read_library : libraryDisk.read ⟨"lib/a.js"⟩ = .ok [49] := by
  obtain ⟨-, -, htexts, -, hpieces, -, hnames⟩ := texts_library
  simp only [List.forall_mem_cons] at htexts hnames
  simp [libraryDisk, Disk.read, Disk.node, Disk.find, Disk.origin, Disk.walk, Node.at?, Node.child?,
    Node.entryIn?, htexts, hnames, hpieces, bind, Except.bind, pure, Except.pure]

theorem run_replace_library :
    ((replace 42 ⟨"lib/a.js"⟩ [50, 51]).run.run libraryDisk).1 = .ok () := by
  obtain ⟨hsibling, hlineage, htexts, hlib, hpieces, haside, hnames⟩ := texts_library
  have hmake : makeDirectories (parentDirectory ⟨"lib/a.js"⟩) = makeLineage [⟨"lib"⟩] :=
    congrArg makeLineage hlineage
  simp only [List.forall_mem_cons] at htexts hnames
  simp [replace, hmake, hsibling, makeLineage, fill, ExceptT.run, ExceptT.bind, ExceptT.mk,
    ExceptT.bindCont, ExceptT.lift, ExceptT.pure, andThen, ask, makeDirectory, isDirectory, status,
    create, write, sync, rename, Script.run, Call.run, Call.changing, libraryDisk,
    Disk.makeDirectory, Disk.status, Disk.writeBytes, Disk.rename, Disk.node, Disk.find, Disk.slot,
    Disk.inSlot?, Disk.put, Disk.origin, Disk.walk, Node.at?, Node.child?, Node.entryIn?,
    Node.change, Node.put, Node.putEntry, Node.drop, Node.isDirectory, htexts, hlib, hpieces,
    haside, hnames, bind, Except.bind, pure, Except.pure, throw, throwThe, MonadExceptOf.throw,
    Functor.map, Except.map]

/-- Whichever calls fail, the old digit or the new ones are read; where none does, the new ones
stand there, and the sibling is gone. -/
theorem replace_allOrNothing_library :
    libraryDisk.IsPlain ∧
      let s := (replace 42 ⟨"lib/a.js"⟩ [50, 51]).run
      (∀ d', s.Sees libraryDisk d' →
        d'.read ⟨"lib/a.js"⟩ = .ok [49] ∨ d'.read ⟨"lib/a.js"⟩ = .ok [50, 51]) ∧
      ∃ events d', s.Returns libraryDisk events (.ok ()) d' ∧
        d'.file? ["lib", "a.js"] = some ([50, 51], 7) ∧
        d'.file? ["lib", ".a.js.partial.42"] = none := by
  obtain ⟨-, hsees, hreturns⟩ :=
    replace_allOrNothing 42 ⟨"lib/a.js"⟩ [50, 51] libraryDisk isPlain_libraryDisk
  refine ⟨isPlain_libraryDisk, fun d' h => (hsees d' h).2.1 _ read_library, ?_⟩
  obtain ⟨events, hrun⟩ := returns_run (replace 42 ⟨"lib/a.js"⟩ [50, 51]).run libraryDisk
  rw [run_replace_library] at hrun
  obtain ⟨hdone, -⟩ := hreturns _ _ _ hrun
  obtain ⟨hfile, -, haside⟩ := hdone rfl
  have hplace : libraryDisk.placeOf ⟨"lib/a.js"⟩ = ["lib", "a.js"] := by decide +kernel
  have hsibling : libraryDisk.placeOf (siblingOf 42 ⟨"lib/a.js"⟩) =
      ["lib", ".a.js.partial.42"] := by
    decide +kernel
  rw [hplace] at hfile
  rw [hsibling] at haside
  exact ⟨events, _, hrun, hfile, haside⟩

end Script

end PackageRouting
