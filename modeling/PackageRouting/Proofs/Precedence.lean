/-
PackageRouting/Proofs/Precedence.lean

Exact keys and patterns that come to one destination.

An exact target claims its files before any pattern does, but only file by file:
a file that is no exact target may reach the text of an exact key through a
pattern, and when it is listed earlier the destination is its own.

Main results: `delivery?_exactKey` (which file a destination with an exact key is
delivered from) and `not_forall_delivery?_exactKey` (it is not always a file of
the exact target).
-/
import PackageRouting.Proofs.InStep

namespace PackageRouting

/-! ### Exact targets -/

/-- The exact key `d` has a target under a condition. -/
def ExportsTable.HasExact (t : ExportsTable) (d : String) (c : Condition) (target : Path) : Prop :=
  ∃ entry, t.exact.find? d = some entry ∧ entry.find? c = some (.path target)

theorem ExportsTable.yieldsExact_iff {t : ExportsTable} {d : String} {c : Condition}
    {target p : Path} (h : t.HasExact d c target) :
    t.YieldsExact p d c ↔ p.sameModule target := by
  obtain ⟨entry, hd, hc⟩ := h
  constructor
  · rintro ⟨entry', target', hd', hc', hsame⟩
    obtain rfl : entry = entry' := Option.some.inj (hd.symm.trans hd')
    obtain rfl : target = target' := by simpa [hc] using hc'
    exact hsame
  · intro hsame
    exact ⟨entry, target, hd, hc, hsame⟩

/-- A pattern key of the `i`-th package routes the file to a destination under a condition: the
file matches no exact target of any package, and the `i`-th is the first with a pattern for it. -/
def RoutesByPattern (fallback : Option DefaultDelivery) (tables : List ExportsTable) (i : Nat)
    (p : Path) (d : String) (c : Condition) : Prop :=
  NoExact fallback tables p ∧ FirstPattern fallback tables i p ∧
    ∃ t, tables[i]? = some t ∧ t.YieldsPattern p d c

section Routes

variable {fallback : Option DefaultDelivery} {tables : List ExportsTable} {p target : Path}
  {i : Nat} {t : ExportsTable} {d : String} {c : Condition}

/-- A destination with an exact key is reached by its target's files, or through a pattern. -/
theorem routes_iff_of_hasExact (ht : tables[i]? = some t) (hexact : t.HasExact d c target)
    (hc : c.IsBundled fallback) :
    Routes fallback tables i p d c ↔
      p.sameModule target ∨ RoutesByPattern fallback tables i p d c := by
  constructor
  · rintro ⟨-, t', ht', hy | ⟨hno, hfirst, hy⟩⟩
    · obtain rfl : t = t' := Option.some.inj (ht.symm.trans ht')
      exact .inl ((ExportsTable.yieldsExact_iff hexact).1 hy)
    · exact .inr ⟨hno, hfirst, t', ht', hy⟩
  · rintro (hsame | ⟨hno, hfirst, t', ht', hy⟩)
    · exact ⟨hc, t, ht, .inl ((ExportsTable.yieldsExact_iff hexact).2 hsame)⟩
    · exact ⟨hc, t', ht', .inr ⟨hno, hfirst, hy⟩⟩

end Routes

namespace Partition

/-! ### Deliveries -/

section Deliveries

variable {fallback : Option DefaultDelivery} {packages : List (String × Package)}
  {files : List SourceFile} {b : Bucket} {i : Nat} {d : String} {c : Condition}

/-- The earliest file that is routed to a destination is delivered there. -/
theorem exists_delivery?_of_isFirst
    (hb : (ofPackages fallback packages files).packages[i]? = some b) {f : SourceFile}
    (hf : IsFirst (fun f => Routes fallback (tablesOf packages) i f.path.normalize d c) files f) :
    ∃ name, b.delivery? d c = some name ∧ b.outputNames.find? f.path.normalize = some name := by
  obtain ⟨name, hname⟩ := exists_outputName_of_routes hb hf.mem hf.prop
  exact ⟨name, (delivery?_packages_eq_some_iff hb).2 ⟨f, hf, hname⟩, hname⟩

end Deliveries

/-- **A destination with an exact key is delivered from the first file of the exact target, unless
a pattern got there before.**  If no file that is listed before reaches the destination through a
pattern key, the delivery is the output of that first file.  Otherwise it is the output of the
earliest file that does, and of no file of the exact target. -/
theorem delivery?_exactKey (r : Registry) (files : List SourceFile) (policy : Policy)
    (fallback : Option DefaultDelivery) :
    let tables := tablesOf (firstOfEachName (r.eligible policy))
    ∀ i b t d c target,
      (ofRegistry r files policy fallback).packages[i]? = some b → tables[i]? = some t →
      t.HasExact d c target → c.IsBundled fallback →
      ∀ earlier f later, files = earlier ++ f :: later → f.path.normalize.sameModule target →
        (∀ g ∈ earlier, ¬ g.path.normalize.sameModule target) →
        ((∀ g ∈ earlier, ¬ RoutesByPattern fallback tables i g.path.normalize d c) →
          ∃ name, b.delivery? d c = some name ∧
            b.outputNames.find? f.path.normalize = some name) ∧
        ∀ g, IsFirst (fun g => RoutesByPattern fallback tables i g.path.normalize d c) earlier g →
          ∃ name, b.delivery? d c = some name ∧
            b.outputNames.find? g.path.normalize = some name ∧
            ∀ h ∈ files, h.path.normalize.sameModule target →
              b.outputNames.find? h.path.normalize ≠ some name := by
  rintro tables i b t d c target hb ht hexact hc earlier f later rfl hf hbefore
  have hroutes := fun p => routes_iff_of_hasExact (p := p) ht hexact hc
  constructor
  · intro hpattern
    apply exists_delivery?_of_isFirst hb
    refine ⟨earlier, later, rfl, (hroutes _).2 (.inl hf), fun g hg hroute => ?_⟩
    exact ((hroutes _).1 hroute).elim (hbefore g hg) (hpattern g hg)
  · intro g hg
    -- before `f` only patterns route files there
    have hfirst : IsFirst (fun g => Routes fallback tables i g.path.normalize d c)
        (earlier ++ f :: later) g :=
      (hg.congr fun y hy => by simp [hroutes, hbefore y hy]).append _
    obtain ⟨name, hdel, hname⟩ := exists_delivery?_of_isFirst hb hfirst
    refine ⟨name, hdel, hname, fun h _ hsame hname' => hbefore g hg.mem ?_⟩
    have hstep : b.InStep (earlier ++ f :: later) := inStep_packages (List.mem_of_getElem? hb)
    rw [← Path.sameModule_congr (hstep.injective _ _ name hname' hname)]
    exact hsame

/-- A package with an exact key and a pattern that comes to the same text. -/
def shadowing : Registry where
  packages := .ofList [
    (⟨"ui/package.json"⟩,
      ⟨⟨some "ui", false, .classic,
        { exact := .ofList [("./a", .ofList [(.importModule, .path ⟨"ui/lib/a.js"⟩)])]
          patterns := .ofList [(⟨"./", ""⟩,
            .ofList [(.importModule, .pattern ⟨"ui/src/", ".js"⟩)])] }, ⟨"ui"⟩⟩, none⟩)]

/-- The file of the exact target, and one that reaches its destination through the pattern. -/
def shadowingFiles : SourceFile × SourceFile :=
  (⟨⟨"ui/lib/a.js"⟩, false⟩, ⟨⟨"ui/src/a.js"⟩, false⟩)

theorem tablesOf_shadowing :
    ∃ t, (tablesOf (firstOfEachName (shadowing.eligible {})))[0]? = some t ∧
      t.HasExact "./a" .importModule ⟨"ui/lib/a.js"⟩ :=
  ⟨_, rfl, _, rfl, rfl⟩

/-- The file of the exact target is delivered when it is listed first. -/
theorem delivery?_exactKey_first :
    let files := [shadowingFiles.1, shadowingFiles.2]
    shadowingFiles.1.path.normalize.sameModule ⟨"ui/lib/a.js"⟩ ∧
      Condition.importModule.IsBundled none ∧
      ∃ b t, (ofRegistry shadowing files {} none).packages[0]? = some b ∧
        (tablesOf (firstOfEachName (shadowing.eligible {})))[0]? = some t ∧
        t.HasExact "./a" .importModule ⟨"ui/lib/a.js"⟩ ∧
        ∃ name, b.delivery? "./a" .importModule = some name ∧
          b.outputNames.find? shadowingFiles.1.path.normalize = some name := by
  intro files
  obtain ⟨t, ht, hexact⟩ := tablesOf_shadowing
  have hsame : shadowingFiles.1.path.normalize.sameModule ⟨"ui/lib/a.js"⟩ := by decide +kernel
  have hb : (ofRegistry shadowing files {} none).packages[0]?.isSome := by decide +kernel
  obtain ⟨b, hb⟩ := Option.isSome_iff_exists.1 hb
  refine ⟨hsame, .inl rfl, b, t, hb, ht, hexact, ?_⟩
  exact (delivery?_exactKey shadowing files {} none 0 b t "./a" .importModule ⟨"ui/lib/a.js"⟩ hb ht
    hexact (.inl rfl) [] shadowingFiles.1 [shadowingFiles.2] rfl hsame (by simp)).1 (by simp)

/-- **A pattern may take a destination from its exact key**: when the file that the pattern takes
is listed first, no file of the exact target is delivered. -/
theorem not_forall_delivery?_exactKey :
    ¬ ∀ (r : Registry) (files : List SourceFile) (policy : Policy)
        (fallback : Option DefaultDelivery) (i : Nat) (b : Bucket) (t : ExportsTable) (d : String)
        (c : Condition) (target : Path),
      (ofRegistry r files policy fallback).packages[i]? = some b →
      (tablesOf (firstOfEachName (r.eligible policy)))[i]? = some t →
      t.HasExact d c target → c.IsBundled fallback →
      (∃ f ∈ files, f.path.normalize.sameModule target) →
      ∃ f ∈ files, f.path.normalize.sameModule target ∧
        ∃ name, b.delivery? d c = some name ∧
          b.outputNames.find? f.path.normalize = some name := by
  intro h
  obtain ⟨t, ht, hexact⟩ := tablesOf_shadowing
  have hpart : (ofRegistry shadowing [shadowingFiles.2, shadowingFiles.1] {} none).packages[0]?.map
      (fun b => (b.delivery? "./a" .importModule,
        b.outputNames.find? shadowingFiles.1.path.normalize)) = some (some "a.js", some "a2.js") := by
    decide +kernel
  obtain ⟨b, hb, hfields⟩ := Option.map_eq_some_iff.1 hpart
  obtain ⟨hdel, hname⟩ := Prod.mk.inj hfields
  obtain ⟨f, hf, hsame, name, hdel', hname'⟩ := h shadowing [shadowingFiles.2, shadowingFiles.1] {}
    none 0 b t "./a" .importModule ⟨"ui/lib/a.js"⟩ hb ht hexact (.inl rfl)
    ⟨shadowingFiles.1, by simp, by decide +kernel⟩
  obtain rfl : "a.js" = name := Option.some.inj (hdel.symm.trans hdel')
  -- of the two files only the first is a file of the exact target
  have hother : ¬ shadowingFiles.2.path.normalize.sameModule ⟨"ui/lib/a.js"⟩ := by decide +kernel
  rcases List.mem_pair.1 hf with rfl | rfl
  · exact hother hsame
  · rw [hname] at hname'
    exact absurd hname' (by decide)

end Partition

end PackageRouting
