/-
PackageRouting/Proofs/Exports/Table.lean

What a table of targets holds after entries were added to it.

Both halves of a routing table are filled in the same way: an entry is merged
into the one that is there, and an empty entry is passed over.  So the target of
a destination under a condition comes from the first entry for the destination
that has one (`targetAt?_addAll`), and a destination is there only if it has a
target (`contains_addAll_iff`).
-/
import PackageRouting.Exports.Table
import PackageRouting.Proofs.SortedMap

namespace PackageRouting

theorem findSome?_cons_eq_or {α β : Type} (f : α → Option β) (a : α) (l : List α) :
    (a :: l).findSome? f = (f a).or (l.findSome? f) := by
  rw [List.findSome?_cons]
  cases f a <;> rfl

namespace Entry

variable {e other : Entry} {c : Condition}

/-- **Of several targets under a condition the first counts.** -/
theorem find?_ofList (targets : List (Condition × Target)) (c : Condition) :
    (ofList targets).find? c = targets.findSome? fun t => if c = t.1 then some t.2 else none := by
  rw [ofList, SortedMap.find?_foldl_insertNew, SortedMap.findIn_eq_findSome?]
  rfl

theorem find?_merge : (e.merge other).find? c = (e.find? c).or (other.find? c) :=
  SortedMap.find?_foldl_insertNew other.entries e c

theorem not_isEmpty_iff : ¬ e.isEmpty ↔ ∃ c, (e.find? c).isSome := by
  constructor
  · intro h
    obtain ⟨⟨c, target⟩, rest, hentries⟩ :=
      List.exists_cons_of_ne_nil fun hnil => h (List.isEmpty_iff.2 hnil)
    have hfind : e.find? c = some target :=
      SortedMap.mem_entries_iff.1 (hentries ▸ List.mem_cons_self)
    exact ⟨c, by rw [hfind]; rfl⟩
  · rintro ⟨c, h⟩ hempty
    rw [SortedMap.find?_of_isEmpty hempty] at h
    cases h

end Entry

namespace ExportsTable

variable {κ : Type} [Ord κ] [Std.TransOrd κ] [Std.LawfulEqOrd κ] [DecidableEq κ]
  {m : SortedMap κ Entry} {k k' : κ} {e : Entry} {c : Condition}

omit [Std.TransOrd κ] [Std.LawfulEqOrd κ] [DecidableEq κ] in
/-- The target of a destination under a condition. -/
def targetAt? (m : SortedMap κ Entry) (k : κ) (c : Condition) : Option Target :=
  (m.find? k).bind fun e => e.find? c

/-- Merges an entry into the one of its destination. -/
def add (m : SortedMap κ Entry) (k : κ) (e : Entry) : SortedMap κ Entry :=
  if e.isEmpty then m else m.alter k fun old => (old.getD .empty).merge e

/-- Merges entries one after another. -/
def addAll (m : SortedMap κ Entry) (entries : List (κ × Entry)) : SortedMap κ Entry :=
  entries.foldl (fun m x => add m x.1 x.2) m

theorem addExact_eq (t : ExportsTable) (d : String) (e : Entry) :
    t.addExact d e = { t with exact := add t.exact d e } := by
  rw [addExact, add]
  split <;> rfl

theorem addPattern_eq (t : ExportsTable) (d : Pattern) (e : Entry) :
    t.addPattern d e = { t with patterns := add t.patterns d e } := by
  rw [addPattern, add]
  split <;> rfl

theorem targetAt?_add :
    targetAt? (add m k e) k' c = (targetAt? m k' c).or (if k' = k then e.find? c else none) := by
  rw [add]
  split
  · next hempty => rw [SortedMap.find?_of_isEmpty hempty, ite_self, Option.or_none]
  · rw [targetAt?, SortedMap.find?_alter]
    by_cases hk : k' = k
    · subst hk
      rw [if_pos Std.ReflOrd.compare_self, if_pos rfl, Option.bind_some, Entry.find?_merge,
        targetAt?]
      cases m.find? k' <;> rfl
    · rw [if_neg (by simpa using hk), if_neg hk, Option.or_none, targetAt?]

theorem contains_add : (add m k e).contains k' ↔ m.contains k' ∨ k' = k ∧ ¬ e.isEmpty := by
  rw [add]
  split
  · next hempty => simp [hempty]
  · next hempty =>
    rw [SortedMap.contains, SortedMap.find?_alter]
    by_cases hk : k' = k
    · subst hk
      simp [hempty]
    · simp [hk, SortedMap.contains]

/-- **The target of a destination is that of the first entry that has one.** -/
theorem targetAt?_addAll (entries : List (κ × Entry)) :
    targetAt? (addAll m entries) k c =
      (targetAt? m k c).or (entries.findSome? fun x => if k = x.1 then x.2.find? c else none) := by
  induction entries generalizing m with
  | nil => exact Option.or_none.symm
  | cons x rest ih =>
    rw [addAll, List.foldl_cons, ← addAll, ih, targetAt?_add, findSome?_cons_eq_or,
      Option.or_assoc]

theorem contains_addAll (entries : List (κ × Entry)) :
    (addAll m entries).contains k ↔ m.contains k ∨ ∃ x ∈ entries, k = x.1 ∧ ¬ x.2.isEmpty := by
  induction entries generalizing m with
  | nil => simp [addAll]
  | cons x rest ih =>
    rw [addAll, List.foldl_cons, ← addAll, ih, contains_add, or_assoc]
    simp only [List.mem_cons, exists_eq_or_imp]

/-- **A destination is there iff it has a target.** -/
theorem contains_addAll_iff (entries : List (κ × Entry)) :
    (addAll .empty entries).contains k ↔
      ∃ c, (targetAt? (addAll .empty entries) k c).isSome := by
  have htarget : ∀ c, targetAt? (addAll .empty entries) k c =
      entries.findSome? fun x => if k = x.1 then x.2.find? c else none :=
    fun c => (targetAt?_addAll entries).trans Option.none_or
  simp only [htarget, List.findSome?_isSome_iff]
  rw [contains_addAll]
  constructor
  · rintro (hold | ⟨x, hx, hk, hne⟩)
    · cases hold
    · obtain ⟨c, hc⟩ := Entry.not_isEmpty_iff.1 hne
      exact ⟨c, x, hx, by rwa [if_pos hk]⟩
  · rintro ⟨c, x, hx, hsome⟩
    split at hsome
    · next hk => exact .inr ⟨x, hx, hk, Entry.not_isEmpty_iff.2 ⟨c, hsome⟩⟩
    · cases hsome

/-- **Entries that give the same targets make the same table**, whatever their order. -/
theorem addAll_ext {entries entries' : List (κ × Entry)}
    (h : ∀ k c, targetAt? (addAll .empty entries) k c = targetAt? (addAll .empty entries') k c) :
    addAll .empty entries = addAll .empty entries' := by
  have hcontains : ∀ k,
      (addAll .empty entries).contains k ↔ (addAll .empty entries').contains k := by
    intro k
    simp only [contains_addAll_iff, h]
  refine SortedMap.eq_of_find? fun k => ?_
  have hk := hcontains k
  have htarget := h k
  simp only [SortedMap.contains, targetAt?] at hk htarget
  cases hfind : (addAll .empty entries).find? k with
  | none =>
    have hempty : ¬ ((addAll .empty entries').find? k).isSome := by
      rw [← hk, hfind]
      exact Bool.false_ne_true
    exact (Option.not_isSome_iff_eq_none.1 hempty).symm
  | some e =>
    rw [hfind] at hk htarget
    obtain ⟨e', hfind'⟩ := Option.isSome_iff_exists.1 (hk.1 rfl)
    rw [hfind'] at htarget ⊢
    exact congrArg some (SortedMap.eq_of_find? htarget)

end ExportsTable

end PackageRouting
