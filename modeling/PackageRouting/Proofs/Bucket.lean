/-
PackageRouting/Proofs/Bucket.lean

What a bucket holds after files were added to it.

A bucket is filled file by file, and for each file claim by claim.  Three tables
are watched on the way: the inputs, the wrapped inputs, and what is delivered
for a destination under a condition.  The name that is reserved for an input is
never changed again (`find?_outputNames_deliver`), so a delivery can be read off
the names at the end.

Main results, for a bucket that is filled along a list of files:
`contains_inputs_fill` and `contains_nomodule_fill` (an input is there, or is
wrapped, because of some file of the list) and `delivery?_fill_eq_some_iff` (a
delivery is the output of the earliest file that reaches the destination).
-/
import PackageRouting.Partition
import PackageRouting.Proofs.Routing

namespace PackageRouting

/-! ### The first member of a kind -/

/-- The first member of a list with a property. -/
def IsFirst {α : Type} (P : α → Prop) (l : List α) (x : α) : Prop :=
  ∃ earlier later, l = earlier ++ x :: later ∧ P x ∧ ∀ y ∈ earlier, ¬ P y

section First

variable {α : Type} {P Q : α → Prop} {l : List α} {a x y : α}

theorem IsFirst.mem (h : IsFirst P l x) : x ∈ l := by
  obtain ⟨earlier, later, rfl, -, -⟩ := h
  simp

theorem IsFirst.prop (h : IsFirst P l x) : P x := by
  obtain ⟨earlier, later, -, hx, -⟩ := h
  exact hx

/-- The empty list has no first member of a kind. -/
theorem not_isFirst_nil : ¬ IsFirst P [] x := by
  rintro ⟨earlier, later, h, -, -⟩
  simp at h

/-- The first member of a kind is the head, or else the first one behind it. -/
theorem isFirst_cons :
    IsFirst P (a :: l) x ↔ (P a ∧ x = a) ∨ (¬ P a ∧ IsFirst P l x) := by
  constructor
  · rintro ⟨earlier, later, h, hx, hne⟩
    cases earlier with
    | nil =>
      obtain ⟨rfl, rfl⟩ := List.cons.inj h
      exact .inl ⟨hx, rfl⟩
    | cons e earlier =>
      obtain ⟨rfl, rfl⟩ := List.cons.inj h
      exact .inr ⟨hne a List.mem_cons_self, earlier, later, rfl, hx,
        fun y hy => hne y (List.mem_cons_of_mem _ hy)⟩
  · rintro (⟨ha, rfl⟩ | ⟨ha, earlier, later, rfl, hx, hne⟩)
    · exact ⟨[], l, rfl, ha, by simp⟩
    · refine ⟨a :: earlier, later, rfl, hx, ?_⟩
      simpa [ha] using hne

/-- A list with a member of the kind has a first one. -/
theorem exists_isFirst_iff : (∃ x, IsFirst P l x) ↔ ∃ x ∈ l, P x := by
  induction l with
  | nil => simp [not_isFirst_nil]
  | cons a l ih =>
    simp only [isFirst_cons, exists_or, List.mem_cons, or_and_right, exists_eq_left,
      exists_and_left, ih]
    by_cases ha : P a <;> simp [ha]

/-- There is one first member only. -/
theorem IsFirst.unique (hx : IsFirst P l x) (hy : IsFirst P l y) : x = y := by
  induction l with
  | nil => exact absurd hx not_isFirst_nil
  | cons a l ih =>
    rcases isFirst_cons.1 hx with ⟨ha, rfl⟩ | ⟨ha, hx⟩
    · rcases isFirst_cons.1 hy with ⟨-, rfl⟩ | ⟨hne, -⟩
      · rfl
      · exact absurd ha hne
    · rcases isFirst_cons.1 hy with ⟨hP, -⟩ | ⟨-, hy⟩
      · exact absurd hP ha
      · exact ih hx hy

/-- What is first of one kind is first of any kind that has the same members in the list. -/
theorem IsFirst.congr (h : IsFirst P l x) (hPQ : ∀ y ∈ l, P y ↔ Q y) : IsFirst Q l x := by
  obtain ⟨earlier, later, rfl, hx, hne⟩ := h
  exact ⟨earlier, later, rfl, (hPQ x (by simp)).1 hx,
    fun y hy hQ => hne y hy ((hPQ y (by simp [hy])).2 hQ)⟩

/-- A first member stays the first when the list grows at its end. -/
theorem IsFirst.append (h : IsFirst P l x) (l' : List α) : IsFirst P (l ++ l') x := by
  obtain ⟨earlier, later, rfl, hx, hne⟩ := h
  exact ⟨earlier, later ++ l', by simp, hx, hne⟩

theorem isFirst_append_singleton (hx : P x) (h : ∀ y ∈ l, ¬ P y) : IsFirst P (l ++ [x]) x :=
  ⟨l, [], rfl, hx, h⟩

/-- Where a test keeps all members of the kind, the first one of the kept members is the first. -/
theorem IsFirst.of_filter {keep : α → Bool} (h : IsFirst P (l.filter keep) x)
    (hkeep : ∀ y ∈ l, P y → keep y) : IsFirst P l x := by
  induction l with
  | nil => exact absurd h not_isFirst_nil
  | cons a l ih =>
    have hrest := fun y hy => hkeep y (List.mem_cons_of_mem a hy)
    rw [isFirst_cons]
    by_cases ha : keep a
    · rw [List.filter_cons, if_pos ha, isFirst_cons] at h
      exact h.imp_right fun h => ⟨h.1, ih h.2 hrest⟩
    · rw [List.filter_cons, if_neg ha] at h
      exact .inr ⟨fun hP => ha (hkeep a List.mem_cons_self hP), ih h hrest⟩

/-- A search that may fail at a member finds the first one where it does not. -/
theorem findSome?_eq_some_iff_isFirst {β : Type} {f : α → Option β} {v : β} :
    l.findSome? f = some v ↔ ∃ x, IsFirst (fun x => (f x).isSome) l x ∧ f x = some v := by
  rw [List.findSome?_eq_some_iff]
  constructor
  · rintro ⟨earlier, x, later, rfl, hx, hnone⟩
    exact ⟨x, ⟨earlier, later, rfl, by simp [hx], fun y hy => by simp [hnone y hy]⟩, hx⟩
  · rintro ⟨x, ⟨earlier, later, rfl, -, hnone⟩, hx⟩
    exact ⟨earlier, x, later, rfl, hx, fun y hy => by simpa using hnone y hy⟩

end First

namespace Bucket

variable {b : Bucket} {file : SourceFile} {p q : Path} {d : String} {c : Condition}

/-- The output that is delivered for a destination under a condition. -/
def delivery? (b : Bucket) (d : String) (c : Condition) : Option String :=
  (b.delivered.find? d).bind fun outputs => outputs.find? c

/-- A name is reserved for every input, and for nothing else. -/
def Aligned (b : Bucket) : Prop :=
  ∀ q, b.inputs.contains q = b.outputNames.contains q

/-- A new bucket has neither inputs nor names. -/
theorem aligned_empty (key : BucketKey) : ({ key := key } : Bucket).Aligned :=
  fun _ => rfl

/-! ### Adding an input -/

@[simp] theorem key_addInput : (b.addInput file p).key = b.key := by
  rw [addInput]; split <;> rfl

@[simp] theorem nomodule_addInput : (b.addInput file p).nomodule = b.nomodule := by
  rw [addInput]; split <;> rfl

@[simp] theorem delivered_addInput : (b.addInput file p).delivered = b.delivered := by
  rw [addInput]; split <;> rfl

/-- The names that are reserved after an input was added: the new one, and those before. -/
theorem contains_outputNames_addInput :
    (b.addInput file p).outputNames.contains q ↔ q ≈ p ∨ b.outputNames.contains q := by
  rw [addInput]
  split
  · next h =>
    constructor
    · exact .inr
    · rintro (hq | hq)
      · rwa [SortedMap.contains_congr _ (Path.compare_eq_iff.2 hq)]
      · exact hq
  · rw [SortedMap.contains_insert, Path.compare_eq_iff]

/-- The inputs after one was added: the new one, and those before. -/
theorem contains_inputs_addInput (h : b.Aligned) :
    (b.addInput file p).inputs.contains q ↔ q ≈ p ∨ b.inputs.contains q := by
  rw [addInput]
  split
  · next hp =>
    constructor
    · exact .inr
    · rintro (hq | hq)
      · rwa [SortedMap.contains_congr _ (Path.compare_eq_iff.2 hq), h]
      · exact hq
  · rw [SortedSet.contains_insert, Path.compare_eq_iff]

theorem Aligned.addInput (h : b.Aligned) : (b.addInput file p).Aligned := by
  intro q
  rw [Bool.eq_iff_iff, contains_inputs_addInput h, contains_outputNames_addInput, h q]

/-- No other spelling is put in than the one that was added. -/
theorem mem_inputs_addInput (hq : q ∈ (b.addInput file p).inputs.toList) :
    q = p ∨ q ∈ b.inputs.toList := by
  rw [Bucket.addInput] at hq
  split at hq
  · exact .inr hq
  · exact SortedSet.mem_toList_insert hq

/-- A reserved name stays. -/
theorem find?_outputNames_addInput {name : String} (h : b.outputNames.find? q = some name) :
    (b.addInput file p).outputNames.find? q = some name := by
  rw [addInput]
  split
  · exact h
  · next hp =>
    rw [SortedMap.find?_insert, if_neg, h]
    intro hq
    rw [← SortedMap.contains_congr _ hq, SortedMap.contains, h] at hp
    simp at hp

/-- An input has a name once it is added. -/
theorem exists_outputNames_addInput (b : Bucket) (file : SourceFile) (p : Path) :
    ∃ name, (b.addInput file p).outputNames.find? p = some name := by
  have h : (b.addInput file p).outputNames.contains p :=
    contains_outputNames_addInput.2 (.inl (Path.equiv_refl p))
  rwa [SortedMap.contains, Option.isSome_iff_exists] at h

/-! ### Marking and recording -/

section Mark

variable {delivery : Delivery}

@[simp] theorem key_mark : (b.mark p delivery).key = b.key := by
  cases delivery <;> rfl

@[simp] theorem inputs_mark : (b.mark p delivery).inputs = b.inputs := by
  cases delivery <;> rfl

@[simp] theorem outputNames_mark : (b.mark p delivery).outputNames = b.outputNames := by
  cases delivery <;> rfl

@[simp] theorem delivered_mark : (b.mark p delivery).delivered = b.delivered := by
  cases delivery <;> rfl

/-- A delivery marks the path as wrapped iff it is one for a classic script. -/
theorem contains_nomodule_mark :
    (b.mark p delivery).nomodule.contains q ↔
      (q ≈ p ∧ delivery = .nomodule) ∨ b.nomodule.contains q := by
  cases delivery with
  | module => simp [mark]
  | nomodule =>
    rw [mark, SortedSet.contains_insert, Path.compare_eq_iff]
    simp

end Mark

/-- An output is recorded where there is none, and nowhere else. -/
theorem delivery?_record (output : String) (d' : String) (c' : Condition) :
    (b.record d c output).delivery? d' c' =
      if d' = d ∧ c' = c then some ((b.delivery? d c).getD output) else b.delivery? d' c' := by
  simp only [delivery?, record, SortedMap.find?_alter, Std.compare_eq_iff_eq]
  by_cases hd : d' = d
  · subst hd
    cases h : b.delivered.find? d' with
    | none =>
      by_cases hc : c' = c <;> simp [hc, SortedMap.find?_insertNew, SortedMap.find?_empty]
    | some outputs =>
      by_cases hc : c' = c <;> simp [hc, SortedMap.find?_insertNew]
  · simp [hd]

/-! ### A delivery -/

section Deliver

variable {delivery : Delivery}

@[simp] theorem key_deliver : (b.deliver file p d c delivery).key = b.key := by
  simp [deliver, record]

@[simp] theorem inputs_deliver :
    (b.deliver file p d c delivery).inputs = (b.addInput file p).inputs := by
  simp [deliver, record]

@[simp] theorem outputNames_deliver :
    (b.deliver file p d c delivery).outputNames = (b.addInput file p).outputNames := by
  simp [deliver, record]

/-- A delivery reserves a name for its input, and no other. -/
theorem Aligned.deliver (h : b.Aligned) : (b.deliver file p d c delivery).Aligned := by
  intro q
  rw [inputs_deliver, outputNames_deliver]
  exact h.addInput q

/-- A delivery wraps its path iff it is one for a classic script. -/
theorem contains_nomodule_deliver :
    (b.deliver file p d c delivery).nomodule.contains q ↔
      (q ≈ p ∧ delivery = .nomodule) ∨ b.nomodule.contains q := by
  have h : (b.deliver file p d c delivery).nomodule =
      ((b.addInput file p).mark p delivery).nomodule := rfl
  rw [h, contains_nomodule_mark, nomodule_addInput]

/-- **The first output to reach a destination under a condition stays.** -/
theorem delivery?_deliver {name : String}
    (hname : (b.addInput file p).outputNames.find? p = some name) (d' : String) (c' : Condition) :
    (b.deliver file p d c delivery).delivery? d' c' =
      if d' = d ∧ c' = c then some ((b.delivery? d c).getD name) else b.delivery? d' c' := by
  have hout : ((b.addInput file p).mark p delivery).outputName p = name := by
    rw [outputName, outputNames_mark, hname, Option.getD_some]
  have hkeep : ∀ d' c', ((b.addInput file p).mark p delivery).delivery? d' c' =
      b.delivery? d' c' := by
    intro d' c'
    rw [delivery?, delivered_mark, delivered_addInput, delivery?]
  rw [deliver, delivery?_record, hout, hkeep, hkeep]

end Deliver

/-! ### The claims on one file -/

section Claims

variable {claims : List Claim}

@[simp] theorem key_addClaims : (Partition.addClaims file p b claims).key = b.key := by
  induction claims generalizing b with
  | nil => rfl
  | cons x rest ih => exact ih.trans key_deliver

theorem Aligned.addClaims (h : b.Aligned) : (Partition.addClaims file p b claims).Aligned := by
  induction claims generalizing b with
  | nil => exact h
  | cons x rest ih => exact ih h.deliver

/-- A file becomes an input as soon as it has a claim. -/
theorem contains_inputs_addClaims (h : b.Aligned) :
    (Partition.addClaims file p b claims).inputs.contains q ↔
      (claims ≠ [] ∧ q ≈ p) ∨ b.inputs.contains q := by
  induction claims generalizing b with
  | nil => simp [Partition.addClaims]
  | cons x rest ih =>
    refine (ih h.deliver).trans ?_
    rw [inputs_deliver, contains_inputs_addInput h]
    simp only [ne_eq, reduceCtorEq, not_false_eq_true, true_and]
    exact or_iff_right_of_imp fun hq => .inl hq.2

theorem mem_inputs_addClaims (hq : q ∈ (Partition.addClaims file p b claims).inputs.toList) :
    q = p ∨ q ∈ b.inputs.toList := by
  induction claims generalizing b with
  | nil => exact .inr hq
  | cons x rest ih =>
    rcases ih hq with hq | hq
    · exact .inl hq
    · rw [inputs_deliver] at hq
      exact mem_inputs_addInput hq

/-- The names that are reserved stay through the claims on a further file. -/
theorem find?_outputNames_addClaims {name : String} (h : b.outputNames.find? q = some name)
    (file : SourceFile) (p : Path) (claims : List Claim) :
    (Partition.addClaims file p b claims).outputNames.find? q = some name := by
  induction claims generalizing b with
  | nil => exact h
  | cons x rest ih =>
    apply ih
    rw [outputNames_deliver]
    exact find?_outputNames_addInput h

/-- A file with a claim has a name once its claims are added. -/
theorem exists_outputNames_addClaims (b : Bucket) (file : SourceFile) (p : Path)
    (h : claims ≠ []) :
    ∃ name, (Partition.addClaims file p b claims).outputNames.find? p = some name := by
  cases claims with
  | nil => exact absurd rfl h
  | cons x rest =>
    obtain ⟨name, hname⟩ := exists_outputNames_addInput b file p
    rw [← outputNames_deliver (d := x.destination) (c := x.condition)] at hname
    exact ⟨name, find?_outputNames_addClaims hname file p rest⟩

/-- A file is wrapped as soon as one of its claims is for a classic script. -/
theorem contains_nomodule_addClaims :
    (Partition.addClaims file p b claims).nomodule.contains q ↔
      (q ≈ p ∧ ∃ x ∈ claims, x.delivery = .nomodule) ∨ b.nomodule.contains q := by
  induction claims generalizing b with
  | nil => simp [Partition.addClaims]
  | cons x rest ih =>
    refine ih.trans ?_
    rw [contains_nomodule_deliver]
    simp only [List.mem_cons, exists_eq_or_imp, and_or_left, or_assoc]
    exact or_left_comm

/-- What is delivered after the claims on a file: what was delivered before, and for the
destinations that the claims reach for the first time the file's output. -/
theorem delivery?_addClaims_eq_some_iff {n : String} :
    (Partition.addClaims file p b claims).delivery? d c = some n ↔
      b.delivery? d c = some n ∨ (b.delivery? d c = none ∧ (∃ x ∈ claims, x.Reaches d c) ∧
        (Partition.addClaims file p b claims).outputNames.find? p = some n) := by
  induction claims generalizing b with
  | nil => simp [Partition.addClaims]
  | cons x rest ih =>
    obtain ⟨name, hname⟩ := exists_outputNames_addInput b file p
    have hstay : (Partition.addClaims file p b (x :: rest)).outputNames.find? p = some name := by
      refine find?_outputNames_addClaims ?_ file p rest
      rw [outputNames_deliver, hname]
    refine (ih (b := b.deliver file p x.destination x.condition x.delivery)).trans ?_
    have hfold : Partition.addClaims file p
        (b.deliver file p x.destination x.condition x.delivery) rest =
        Partition.addClaims file p b (x :: rest) := rfl
    rw [hfold, hstay, delivery?_deliver hname]
    by_cases hx : x.Reaches d c
    · -- from here on the destination is taken, so the later claims do not matter
      have hex : ∃ y ∈ x :: rest, y.Reaches d c := ⟨x, List.mem_cons_self, hx⟩
      obtain ⟨rfl, rfl⟩ := hx
      rw [if_pos ⟨rfl, rfl⟩]
      cases b.delivery? x.destination x.condition with
      | none =>
        simp only [Option.getD_none, hex, true_and, reduceCtorEq, false_and, or_false, false_or]
      | some m => simp
    · have hne : ¬ (d = x.destination ∧ c = x.condition) :=
        fun h => hx ⟨h.1.symm, h.2.symm⟩
      simp [hne, hx]

end Claims

/-! ### Filling a bucket -/

/-- The bucket after files were added with the claims that `route` gives for each. -/
def fill (route : SourceFile → List Claim) (b : Bucket) (files : List SourceFile) : Bucket :=
  files.foldl (fun b f => Partition.addClaims f f.path.normalize b (route f)) b

section Fill

variable {route : SourceFile → List Claim} {files : List SourceFile}

@[simp] theorem key_fill : (b.fill route files).key = b.key := by
  induction files generalizing b with
  | nil => rfl
  | cons f rest ih => exact ih.trans key_addClaims

/-- However a bucket is filled, it has a name for each input and for nothing else. -/
theorem Aligned.fill (h : b.Aligned) : (b.fill route files).Aligned := by
  induction files generalizing b with
  | nil => exact h
  | cons f rest ih => exact ih h.addClaims

/-- An input is there because some file of the list has a claim on it. -/
theorem contains_inputs_fill (h : b.Aligned) :
    (b.fill route files).inputs.contains q ↔
      (∃ f ∈ files, route f ≠ [] ∧ q ≈ f.path.normalize) ∨ b.inputs.contains q := by
  induction files generalizing b with
  | nil => simp [fill]
  | cons f rest ih =>
    refine (ih h.addClaims).trans ?_
    rw [contains_inputs_addClaims h]
    simp only [List.mem_cons, exists_eq_or_imp, or_assoc]
    exact or_left_comm

/-- The inputs are spelled as the normalized paths of the files. -/
theorem mem_inputs_fill (hq : q ∈ (b.fill route files).inputs.toList) :
    (∃ f ∈ files, q = f.path.normalize) ∨ q ∈ b.inputs.toList := by
  induction files generalizing b with
  | nil => exact .inr hq
  | cons f rest ih =>
    rcases ih hq with ⟨g, hg, hq⟩ | hq
    · exact .inl ⟨g, List.mem_cons_of_mem _ hg, hq⟩
    · rcases mem_inputs_addClaims hq with hq | hq
      · exact .inl ⟨f, List.mem_cons_self, hq⟩
      · exact .inr hq

/-- **A reserved name is the name at the end**, whatever files come after. -/
theorem find?_outputNames_fill {name : String} (h : b.outputNames.find? q = some name)
    (route : SourceFile → List Claim) (files : List SourceFile) :
    (b.fill route files).outputNames.find? q = some name := by
  induction files generalizing b with
  | nil => exact h
  | cons f rest ih => exact ih (find?_outputNames_addClaims h f f.path.normalize (route f))

/-- An input is wrapped because some file of the list has a claim for a classic script. -/
theorem contains_nomodule_fill :
    (b.fill route files).nomodule.contains q ↔
      (∃ f ∈ files, q ≈ f.path.normalize ∧ ∃ x ∈ route f, x.delivery = .nomodule) ∨
        b.nomodule.contains q := by
  induction files generalizing b with
  | nil => simp [fill]
  | cons f rest ih =>
    refine ih.trans ?_
    rw [contains_nomodule_addClaims]
    simp only [List.mem_cons, exists_eq_or_imp, or_assoc]
    exact or_left_comm

/-- **A delivery is the output of the earliest file that reaches the destination.** -/
theorem delivery?_fill_eq_some_iff {n : String} :
    (b.fill route files).delivery? d c = some n ↔
      b.delivery? d c = some n ∨ (b.delivery? d c = none ∧
        ∃ f, IsFirst (fun f => ∃ x ∈ route f, x.Reaches d c) files f ∧
          (b.fill route files).outputNames.find? f.path.normalize = some n) := by
  induction files generalizing b with
  | nil => simp [fill, not_isFirst_nil]
  | cons f rest ih =>
    have hfold : b.fill route (f :: rest) =
        (Partition.addClaims f f.path.normalize b (route f)).fill route rest := rfl
    rw [hfold, ih]
    by_cases hf : ∃ x ∈ route f, x.Reaches d c
    · -- the output name of `f` is reserved now, and no later file takes it away
      have hne : route f ≠ [] := by
        obtain ⟨x, hx, -⟩ := hf
        exact List.ne_nil_of_mem hx
      obtain ⟨m, hm⟩ := exists_outputNames_addClaims b f f.path.normalize hne
      have hend := find?_outputNames_fill hm route rest
      have hfirst : (∃ g, IsFirst (fun f => ∃ x ∈ route f, x.Reaches d c) (f :: rest) g ∧
          ((Partition.addClaims f f.path.normalize b (route f)).fill route rest).outputNames.find?
            g.path.normalize = some n) ↔ m = n := by
        simp [isFirst_cons, hf, hend]
      rw [hfirst]
      cases hb : b.delivery? d c with
      | none =>
        have hdel := delivery?_addClaims_eq_some_iff.2 (.inr ⟨hb, hf, hm⟩)
        simp [hdel]
      | some k =>
        have hdel : (Partition.addClaims f f.path.normalize b (route f)).delivery? d c = some k :=
          delivery?_addClaims_eq_some_iff.2 (.inl hb)
        simp [hdel]
    · -- `f` leaves the destination as it was
      have hkeep : (Partition.addClaims f f.path.normalize b (route f)).delivery? d c =
          b.delivery? d c := by
        ext m
        rw [delivery?_addClaims_eq_some_iff]
        simp [hf]
      simp only [hkeep, isFirst_cons, hf, false_and, not_false_eq_true, true_and, false_or]

end Fill

/-! ### Files without a claim -/

/-- The bucket after files were added without any destination. -/
def addAll (b : Bucket) (files : List SourceFile) : Bucket :=
  files.foldl (fun b f => b.addInput f f.path.normalize) b

/-- Every file of the list is an input. -/
theorem contains_inputs_addAll {files : List SourceFile} (h : b.Aligned) :
    (b.addAll files).inputs.contains q ↔
      (∃ f ∈ files, q ≈ f.path.normalize) ∨ b.inputs.contains q := by
  induction files generalizing b with
  | nil => simp [addAll]
  | cons f rest ih =>
    refine (ih h.addInput).trans ?_
    rw [contains_inputs_addInput h]
    simp only [List.mem_cons, exists_eq_or_imp, or_assoc]
    exact or_left_comm

theorem mem_inputs_addAll {files : List SourceFile} (hq : q ∈ (b.addAll files).inputs.toList) :
    (∃ f ∈ files, q = f.path.normalize) ∨ q ∈ b.inputs.toList := by
  induction files generalizing b with
  | nil => exact .inr hq
  | cons f rest ih =>
    rcases ih hq with ⟨g, hg, hq⟩ | hq
    · exact .inl ⟨g, List.mem_cons_of_mem _ hg, hq⟩
    · rcases mem_inputs_addInput hq with hq | hq
      · exact .inl ⟨f, List.mem_cons_self, hq⟩
      · exact .inr hq

end Bucket

end PackageRouting
