/-
PackageRouting/Proofs/SortedMap.lean

What a look-up says about the entries of a table, and what the operations do to
look-ups.

Keys that compare equal may be spelled differently, so an entry is found under
every spelling of its key (`find?_eq_some_iff`).  Over lawful keys the spelling
is gone and a look-up is membership (`mem_entries_iff`).

Main results: `forall₂_entries` — two tables whose look-ups are related have
related entries in the same order — and `embeds_alter` (what a change at one key
leaves of a table).
-/
import Mathlib.Data.List.Forall2
import PackageRouting.SortedMap

namespace PackageRouting

open Std

namespace SortedMap

variable {κ α β : Type} [Ord κ]

/-! ### Look-ups and entries -/

section Look

variable [TransOrd κ]

theorem find?_congr (m : SortedMap κ α) {k k' : κ} (h : compare k k' = .eq) :
    m.find? k = m.find? k' :=
  findIn_congr h m.entries

theorem contains_congr (m : SortedMap κ α) {k k' : κ} (h : compare k k' = .eq) :
    m.contains k = m.contains k' := by
  rw [contains, contains, m.find?_congr h]

/-- In an ordered list the search finds the entry whose key compares equal. -/
theorem findIn_eq_some_iff {k : κ} {v : α} {l : List (κ × α)}
    (hs : l.Pairwise fun a b => compare a.1 b.1 = .lt) :
    findIn k l = some v ↔ ∃ k', compare k k' = .eq ∧ (k', v) ∈ l := by
  induction l with
  | nil => simp [findIn]
  | cons hd rest ih =>
    obtain ⟨k₀, v₀⟩ := hd
    obtain ⟨hhd, hrest⟩ := List.pairwise_cons.1 hs
    by_cases h : compare k k₀ = .eq
    · constructor
      · intro hf
        obtain rfl : v₀ = v := by simpa [findIn, h] using hf
        exact ⟨k₀, h, List.mem_cons_self⟩
      · rintro ⟨k', hk, hmem⟩
        rcases List.mem_cons.1 hmem with heq | hmem
        · cases heq
          simp [findIn, h]
        · -- a later key is greater than the first, so it cannot equal `k` as well
          have hlt : compare k k' = .lt := by rw [TransCmp.congr_left h]; exact hhd _ hmem
          rw [hk] at hlt
          cases hlt
    · have hne : ∀ k', compare k k' = .eq → (k', v) ≠ (k₀, v₀) := by
        rintro k' hk heq
        cases heq
        exact h hk
      simp only [findIn, if_neg h, ih hrest, List.mem_cons]
      constructor
      · rintro ⟨k', hk, hmem⟩
        exact ⟨k', hk, .inr hmem⟩
      · rintro ⟨k', hk, heq | hmem⟩
        · exact absurd heq (hne k' hk)
        · exact ⟨k', hk, hmem⟩

omit [TransOrd κ] in
/-- Over lawful keys the search compares keys for equality. -/
theorem findIn_eq_findSome? [LawfulEqOrd κ] [DecidableEq κ] (k : κ) (l : List (κ × α)) :
    findIn k l = l.findSome? fun e => if k = e.1 then some e.2 else none := by
  induction l with
  | nil => rfl
  | cons e rest ih =>
    rw [findIn, List.findSome?_cons, ih]
    by_cases h : k = e.1
    · subst h
      simp
    · simp [h]

/-- **A look-up finds the entry whose key compares equal.** -/
theorem find?_eq_some_iff {m : SortedMap κ α} {k : κ} {v : α} :
    m.find? k = some v ↔ ∃ k', compare k k' = .eq ∧ (k', v) ∈ m.entries :=
  findIn_eq_some_iff m.sorted

/-- Over lawful keys an entry is what a look-up finds. -/
theorem mem_entries_iff [LawfulEqOrd κ] {m : SortedMap κ α} {k : κ} {v : α} :
    (k, v) ∈ m.entries ↔ m.find? k = some v := by
  rw [find?_eq_some_iff]
  constructor
  · intro h
    exact ⟨k, ReflOrd.compare_self, h⟩
  · rintro ⟨k', hk, hmem⟩
    obtain rfl : k = k' := LawfulEqCmp.eq_of_compare hk
    exact hmem

/-- Over lawful keys the keys are those that a look-up finds. -/
theorem mem_keys_iff [LawfulEqOrd κ] {m : SortedMap κ α} {k : κ} :
    k ∈ m.keys ↔ m.contains k := by
  rw [contains, Option.isSome_iff_exists, keys, List.mem_map]
  constructor
  · rintro ⟨⟨_, v⟩, he, rfl⟩
    exact ⟨v, mem_entries_iff.1 he⟩
  · rintro ⟨v, hv⟩
    exact ⟨(k, v), mem_entries_iff.2 hv, rfl⟩

/-- The values are what look-ups find. -/
theorem mem_values_iff {m : SortedMap κ α} {v : α} :
    v ∈ m.values ↔ ∃ k, m.find? k = some v := by
  rw [values, List.mem_map]
  constructor
  · rintro ⟨⟨k, _⟩, he, rfl⟩
    exact ⟨k, find?_eq_some_iff.2 ⟨k, ReflOrd.compare_self, he⟩⟩
  · rintro ⟨k, hk⟩
    obtain ⟨k', -, hmem⟩ := find?_eq_some_iff.1 hk
    exact ⟨(k', v), hmem, rfl⟩

omit [TransOrd κ] in
/-- In an empty table nothing is found. -/
theorem find?_of_isEmpty {m : SortedMap κ α} (h : m.isEmpty) (k : κ) : m.find? k = none := by
  rw [find?, List.isEmpty_iff.1 h]
  rfl

/-- A key is found under its own spelling. -/
theorem contains_of_mem_keys {m : SortedMap κ α} {k : κ} (h : k ∈ m.keys) : m.contains k := by
  obtain ⟨⟨k, v⟩, he, rfl⟩ := List.mem_map.1 h
  rw [contains, find?_eq_some_iff.2 ⟨k, ReflOrd.compare_self, he⟩]
  rfl

end Look

/-! ### Operations -/

section Operations

variable [TransOrd κ]

/-- A key in front of the first one is not found. -/
theorem findIn_cons_eq_none {k k' : κ} {v : α} {rest : List (κ × α)} (hk : compare k k' = .lt)
    (hhd : ∀ e ∈ rest, compare k' e.1 = .lt) : findIn k ((k', v) :: rest) = none := by
  apply findIn_eq_none_of_lt
  intro e he
  rcases List.mem_cons.1 he with rfl | he
  · exact hk
  · exact TransCmp.lt_trans hk (hhd e he)

/-- A change that is none for the value at the key leaves the table as it is, spelling and all. -/
theorem alter_eq_self {m : SortedMap κ α} {k : κ} {v : α} {change : Option α → α}
    (h : m.find? k = some v) (hv : change (some v) = v) : m.alter k change = m := by
  have hentries : ∀ {l : List (κ × α)}, (l.Pairwise fun a b => compare a.1 b.1 = .lt) →
      findIn k l = some v → alterIn k change l = l := by
    intro l hs hl
    induction l with
    | nil => cases hl
    | cons e rest ih =>
      obtain ⟨k₀, v₀⟩ := e
      obtain ⟨hhd, hrest⟩ := List.pairwise_cons.1 hs
      rw [alterIn]
      split
      · next hlt =>
        rw [findIn_cons_eq_none hlt hhd] at hl
        cases hl
      · next heq =>
        obtain rfl : v₀ = v := by simpa [findIn, heq] using hl
        rw [hv]
      · next hgt =>
        rw [ih hrest (by simpa [findIn, hgt] using hl)]
  exact eq_of_entries (hentries m.sorted h)

theorem insert_eq_self {m : SortedMap κ α} {k : κ} {v : α} (h : m.find? k = some v) :
    m.insert k v = m :=
  alter_eq_self h rfl

theorem insertNew_eq_self {m : SortedMap κ α} {k : κ} {v : α} (h : m.find? k = some v) (v' : α) :
    m.insertNew k v' = m :=
  alter_eq_self h rfl

theorem contains_insert (m : SortedMap κ α) (k k' : κ) (v : α) :
    (m.insert k v).contains k' ↔ compare k' k = .eq ∨ m.contains k' := by
  rw [contains, find?_insert]
  split
  · next h => simp [h]
  · next h => simp [h, contains]

/-- The key that is put in is the only one that may be new. -/
theorem mem_keys_insert {m : SortedMap κ α} {k k' : κ} {v : α}
    (h : k' ∈ (m.insert k v).keys) : k' = k ∨ k' ∈ m.keys := by
  obtain ⟨e, he, rfl⟩ := List.mem_map.1 h
  rcases key_mem_alterIn he with hk | ⟨e', he', hk⟩
  · exact .inl hk
  · exact .inr (List.mem_map.2 ⟨e', he', hk.symm⟩)

omit [TransOrd κ] in
theorem map_fst_alterIn_congr {k : κ} {change : Option α → α} {change' : Option β → β}
    {l : List (κ × α)} {l' : List (κ × β)} (h : l.map (·.1) = l'.map (·.1)) :
    (alterIn k change l).map (·.1) = (alterIn k change' l').map (·.1) := by
  induction l generalizing l' with
  | nil =>
    obtain rfl : l' = [] := List.map_eq_nil_iff.1 h.symm
    rfl
  | cons e rest ih =>
    cases l' with
    | nil => cases h
    | cons e' rest' =>
      obtain ⟨hk, hrest⟩ := List.cons.inj h
      rw [alterIn, alterIn, ← show e.1 = e'.1 from hk]
      split
      · simpa using hrest
      · simpa using hrest
      · rw [List.map_cons, List.map_cons, ih hrest]

/-- A value that is put at a new key is among the values after it, with those before it. -/
theorem mem_values_insertNew {m : SortedMap κ α} {k : κ} {v v' : α}
    (h : v' ∈ (m.insertNew k v).values) : v' = v ∨ v' ∈ m.values := by
  obtain ⟨k', hk'⟩ := mem_values_iff.1 h
  rw [find?_insertNew] at hk'
  split at hk'
  · -- the value that is there already stays
    cases hold : m.find? k with
    | none =>
      rw [hold, Option.getD_none] at hk'
      exact .inl (Option.some.inj hk').symm
    | some old =>
      rw [hold, Option.getD_some] at hk'
      exact .inr (mem_values_iff.2 ⟨k, hold.trans hk'⟩)
  · exact .inr (mem_values_iff.2 ⟨k', hk'⟩)

/-- The keys after an insertion depend on the keys before it. -/
theorem keys_insert_congr {m : SortedMap κ α} {m' : SortedMap κ β} (h : m.keys = m'.keys) (k : κ)
    (v : α) (v' : β) : (m.insert k v).keys = (m'.insert k v').keys :=
  map_fst_alterIn_congr h

theorem find?_filter_eq_some_iff {m : SortedMap κ α} {keep : κ → α → Bool} {k : κ} {v : α} :
    (m.filter keep).find? k = some v ↔
      ∃ k', compare k k' = .eq ∧ (k', v) ∈ m.entries ∧ keep k' v := by
  rw [find?_eq_some_iff]
  simp [filter]

/-- Over lawful keys an entry is found if it was there and its key is kept. -/
theorem find?_filter_keys [LawfulEqOrd κ] (m : SortedMap κ α) (keep : κ → Bool) (k : κ) :
    (m.filter fun k _ => keep k).find? k = if keep k then m.find? k else none := by
  ext v
  rw [← mem_entries_iff]
  by_cases h : keep k <;> simp [filter, h, mem_entries_iff]

/-- A removal takes away its own key, under every spelling, and no other. -/
theorem find?_erase (m : SortedMap κ α) (k k' : κ) :
    (m.erase k).find? k' = if compare k' k = .eq then none else m.find? k' := by
  ext v
  rw [erase, find?_filter_eq_some_iff]
  by_cases h : compare k' k = .eq
  · simp only [if_pos h, reduceCtorEq, iff_false, not_exists, not_and]
    intro k'' hk'' _
    have hk : compare k k'' = .eq := by rw [← TransCmp.congr_left h]; exact hk''
    simp [hk]
  · rw [if_neg h, find?_eq_some_iff]
    constructor
    · rintro ⟨k'', hk'', hmem, -⟩
      exact ⟨k'', hk'', hmem⟩
    · rintro ⟨k'', hk'', hmem⟩
      refine ⟨k'', hk'', hmem, ?_⟩
      have hk : compare k k'' ≠ .eq := fun hk => h <| by
        rw [TransCmp.congr_right hk]; exact hk''
      simpa using hk

/-- What is found after insertions was there before, or is one of them. -/
theorem find?_foldl_insert {l : List (κ × α)} {m : SortedMap κ α} {k : κ} {v : α}
    (h : (l.foldl (fun m e => m.insert e.1 e.2) m).find? k = some v) :
    m.find? k = some v ∨ ∃ k', compare k k' = .eq ∧ (k', v) ∈ l := by
  induction l generalizing m with
  | nil => exact .inl h
  | cons e rest ih =>
    rcases ih h with h | ⟨k', hk, hmem⟩
    · rw [find?_insert] at h
      split at h
      · next hk =>
        obtain rfl : e.2 = v := by simpa using h
        exact .inr ⟨e.1, hk, List.mem_cons_self⟩
      · exact .inl h
    · exact .inr ⟨k', hk, List.mem_cons_of_mem _ hmem⟩

/-- Putting values at new keys, one after another, finds what was there before or else the first
value for the key. -/
theorem find?_foldl_insertNew (l : List (κ × α)) (m : SortedMap κ α) (k : κ) :
    (l.foldl (fun m e => m.insertNew e.1 e.2) m).find? k = (m.find? k).or (findIn k l) := by
  induction l generalizing m with
  | nil => exact Option.or_none.symm
  | cons e rest ih =>
    obtain ⟨k', v⟩ := e
    rw [List.foldl_cons, ih, find?_insertNew]
    by_cases h : compare k k' = .eq
    · rw [if_pos h, findIn, if_pos h, m.find?_congr h]
      cases m.find? k' <;> rfl
    · rw [if_neg h, findIn, if_neg h]

/-- What is found in the map of a list stands in the list. -/
theorem exists_of_find?_ofList {l : List (κ × α)} {k : κ} {v : α}
    (h : (ofList l).find? k = some v) : ∃ k', compare k k' = .eq ∧ (k', v) ∈ l := by
  rcases find?_foldl_insert h with h | h
  · simp [find?_empty] at h
  · exact h

theorem find?_foldl_erase (l : List κ) (m : SortedMap κ α) (k : κ) :
    (l.foldl erase m).find? k = if l.any (compare k · = .eq) then none else m.find? k := by
  induction l generalizing m with
  | nil => rfl
  | cons a rest ih =>
    rw [List.foldl_cons, ih, find?_erase, List.any_cons]
    by_cases h : compare k a = .eq <;> by_cases h' : rest.any (compare k · = .eq) <;> simp [h, h']

omit [TransOrd κ] in
theorem entries_foldl_erase (l : List κ) (m : SortedMap κ α) :
    (l.foldl erase m).entries = m.entries.filter fun e => l.all (compare · e.1 != .eq) := by
  induction l generalizing m with
  | nil => simp
  | cons a rest ih =>
    rw [List.foldl_cons, ih]
    show (m.entries.filter fun e => compare a e.1 != .eq).filter _ = _
    simp only [List.filter_filter, List.all_cons, Bool.and_comm]

/-- An insertion leaves the keys alone that a test keeps, if the test drops the inserted one. -/
theorem filter_keys_insert {keep : κ → Bool} {k : κ} (m : SortedMap κ α) (v : α)
    (h : ∀ k', compare k k' = .eq → keep k' = false) :
    (m.insert k v).keys.filter keep = m.keys.filter keep := by
  have hk : keep k = false := h k ReflOrd.compare_self
  have hentries : ∀ l : List (κ × α),
      ((alterIn k (fun _ => v) l).map (·.1)).filter keep = (l.map (·.1)).filter keep := by
    intro l
    induction l with
    | nil => simp [alterIn, hk]
    | cons e rest ih =>
      rw [alterIn]
      split
      -- the key is put in front, or stands there already, or comes later
      · simp [hk]
      · next heq => simp [h e.1 heq]
      · rw [List.map_cons, List.map_cons, List.filter_cons, List.filter_cons, ih]
  exact hentries m.entries

omit [TransOrd κ] in
/-- A removal leaves the keys alone that a test keeps, if the test drops the removed one. -/
theorem filter_keys_erase {keep : κ → Bool} {k : κ} (m : SortedMap κ α)
    (h : ∀ k', compare k k' = .eq → keep k' = false) :
    (m.erase k).keys.filter keep = m.keys.filter keep := by
  show ((m.entries.filter fun e => compare k e.1 != .eq).map (·.1)).filter keep =
    (m.entries.map (·.1)).filter keep
  induction m.entries with
  | nil => rfl
  | cons e rest ih =>
    rw [List.filter_cons]
    split
    · rw [List.map_cons, List.map_cons, List.filter_cons, List.filter_cons, ih]
    · next heq =>
      have he : keep e.1 = false := h e.1 (by simpa using heq)
      rw [ih, List.map_cons, List.filter_cons, if_neg (by simp [he])]

end Operations

/-! ### Tables inside tables -/

section Embedding

variable {m m' m'' : SortedMap κ α} {R : α → α → Prop} {k : κ} {v : α}

/-- Each entry of a table has one in the other, under the key as it is spelled and with a related
value. -/
def Embeds (R : α → α → Prop) (m m' : SortedMap κ α) : Prop :=
  ∀ k v, (k, v) ∈ m.entries → ∃ v', (k, v') ∈ m'.entries ∧ R v v'

/-- The entries of a table are entries of the other. -/
abbrev IsSubmap (m m' : SortedMap κ α) : Prop := m.Embeds (· = ·) m'

theorem embeds_refl (hR : ∀ v, R v v) (m : SortedMap κ α) : m.Embeds R m :=
  fun _ v h => ⟨v, h, hR v⟩

theorem Embeds.trans (hR : ∀ u v w, R u v → R v w → R u w) (h : m.Embeds R m')
    (h' : m'.Embeds R m'') : m.Embeds R m'' := by
  intro k v hv
  obtain ⟨v', hv', hrel⟩ := h k v hv
  obtain ⟨v'', hv'', hrel'⟩ := h' k v' hv'
  exact ⟨v'', hv'', hR _ _ _ hrel hrel'⟩

theorem IsSubmap.refl (m : SortedMap κ α) : m.IsSubmap m :=
  embeds_refl (fun _ => rfl) m

theorem IsSubmap.trans (h : m.IsSubmap m') (h' : m'.IsSubmap m'') : m.IsSubmap m'' :=
  Embeds.trans (fun _ _ _ => Eq.trans) h h'

variable [TransOrd κ]

theorem Embeds.exists_find? (h : m.Embeds R m') (hk : m.find? k = some v) :
    ∃ v', m'.find? k = some v' ∧ R v v' := by
  obtain ⟨k', hkk', hmem⟩ := find?_eq_some_iff.1 hk
  obtain ⟨v', hmem', hrel⟩ := h k' v hmem
  exact ⟨v', find?_eq_some_iff.2 ⟨k', hkk', hmem'⟩, hrel⟩

theorem IsSubmap.find? (h : m.IsSubmap m') (hk : m.find? k = some v) : m'.find? k = some v := by
  obtain ⟨v', hv', rfl⟩ := h.exists_find? hk
  exact hv'

theorem Embeds.contains (h : m.Embeds R m') (hk : m.contains k) : m'.contains k := by
  obtain ⟨v, hv⟩ := Option.isSome_iff_exists.1 hk
  obtain ⟨v', hv', -⟩ := h.exists_find? hv
  rw [SortedMap.contains, hv']
  rfl

omit [TransOrd κ] in
/-- An entry is still there after a change elsewhere, and after a related one at its key. -/
theorem exists_mem_alterIn {change : Option α → α} {l : List (κ × α)} (hR : ∀ v, R v v)
    (hchange : ∀ v, findIn k l = some v → R v (change (some v))) {k' : κ} (h : (k', v) ∈ l) :
    ∃ v', (k', v') ∈ alterIn k change l ∧ R v v' := by
  induction l with
  | nil => cases h
  | cons e rest ih =>
    obtain ⟨k₀, v₀⟩ := e
    rw [alterIn]
    split
    · exact ⟨v, List.mem_cons_of_mem _ h, hR v⟩
    · next heq =>
      rcases List.mem_cons.1 h with h | h
      · cases h
        exact ⟨_, List.mem_cons_self, hchange v (by simp [findIn, heq])⟩
      · exact ⟨v, List.mem_cons_of_mem _ h, hR v⟩
    · next hgt =>
      rcases List.mem_cons.1 h with h | h
      · cases h
        exact ⟨v, List.mem_cons_self, hR v⟩
      · have hrest : findIn k ((k₀, v₀) :: rest) = findIn k rest := by simp [findIn, hgt]
        obtain ⟨v', hv', hrel⟩ := ih (by rwa [← hrest]) h
        exact ⟨v', List.mem_cons_of_mem _ hv', hrel⟩

/-- A change that relates to the value that is there loses nothing. -/
theorem embeds_alter {change : Option α → α} (hR : ∀ v, R v v)
    (hchange : ∀ v, m.find? k = some v → R v (change (some v))) :
    m.Embeds R (m.alter k change) :=
  fun _ _ => exists_mem_alterIn hR hchange

theorem isSubmap_insertNew (m : SortedMap κ α) (k : κ) (v : α) : m.IsSubmap (m.insertNew k v) :=
  embeds_alter (fun _ => rfl) fun _ _ => rfl

/-- An insertion at a new key loses nothing. -/
theorem isSubmap_insert (h : ¬ m.contains k) (v : α) : m.IsSubmap (m.insert k v) := by
  refine embeds_alter (fun _ => rfl) fun v' hv' => ?_
  rw [contains, hv'] at h
  exact absurd rfl h

end Embedding

/-! ### Related tables -/

section Related

variable [TransOrd κ] {R : α → β → Prop}

/-- The look-ups of two lists of entries are related everywhere. -/
def RelatedIn (R : α → β → Prop) (l : List (κ × α)) (l' : List (κ × β)) : Prop :=
  ∀ k, Option.Rel R (findIn k l) (findIn k l')

theorem RelatedIn.compare_head {k k' : κ} {v : α} {v' : β} {rest : List (κ × α)}
    {rest' : List (κ × β)} (h : RelatedIn R ((k, v) :: rest) ((k', v') :: rest'))
    (hhd : ∀ e ∈ rest, compare k e.1 = .lt) (hhd' : ∀ e ∈ rest', compare k' e.1 = .lt) :
    compare k k' = .eq := by
  cases hc : compare k k' with
  | eq => rfl
  | lt =>
    -- the smaller of the two keys is found in its own list only
    have hk := h k
    rw [findIn_cons_eq_none hc hhd'] at hk
    simp [findIn] at hk
  | gt =>
    have hk := h k'
    rw [findIn_cons_eq_none (OrientedCmp.gt_iff_lt.1 hc) hhd] at hk
    simp [findIn] at hk

theorem RelatedIn.tail {k k' : κ} {v : α} {v' : β} {rest : List (κ × α)}
    {rest' : List (κ × β)} (h : RelatedIn R ((k, v) :: rest) ((k', v') :: rest'))
    (hk : compare k k' = .eq) (hhd : ∀ e ∈ rest, compare k e.1 = .lt)
    (hhd' : ∀ e ∈ rest', compare k' e.1 = .lt) : RelatedIn R rest rest' := by
  intro x
  by_cases hx : compare x k = .eq
  · -- the key in front comes up no second time
    have hx' : compare x k' = .eq := by rw [TransCmp.congr_left hx]; exact hk
    rw [findIn_congr hx, findIn_congr hx', findIn_eq_none_of_lt hhd, findIn_eq_none_of_lt hhd']
    exact .none
  · have hx' : compare x k' ≠ .eq := by rwa [← TransCmp.congr_right hk]
    simpa [findIn, hx, hx'] using h x

/-- Ordered lists with related look-ups are related entry by entry. -/
theorem forall₂_of_relatedIn {l : List (κ × α)} {l' : List (κ × β)}
    (hs : l.Pairwise fun a b => compare a.1 b.1 = .lt)
    (hs' : l'.Pairwise fun a b => compare a.1 b.1 = .lt) (h : RelatedIn R l l') :
    List.Forall₂ (fun e e' => compare e.1 e'.1 = .eq ∧ R e.2 e'.2) l l' := by
  induction l generalizing l' with
  | nil =>
    cases l' with
    | nil => exact .nil
    | cons e' rest' =>
      have := h e'.1
      simp [findIn] at this
  | cons e rest ih =>
    cases l' with
    | nil =>
      have := h e.1
      simp [findIn] at this
    | cons e' rest' =>
      obtain ⟨hhd, hrest⟩ := List.pairwise_cons.1 hs
      obtain ⟨hhd', hrest'⟩ := List.pairwise_cons.1 hs'
      have hk : compare e.1 e'.1 = .eq := h.compare_head hhd hhd'
      have hv : R e.2 e'.2 := by simpa [findIn, hk] using h e.1
      exact .cons ⟨hk, hv⟩ (ih hrest hrest' (h.tail hk hhd hhd'))

/-- **Tables with related look-ups have related entries, in the same order.** -/
theorem forall₂_entries {m : SortedMap κ α} {m' : SortedMap κ β}
    (h : ∀ k, Option.Rel R (m.find? k) (m'.find? k)) :
    List.Forall₂ (fun e e' => compare e.1 e'.1 = .eq ∧ R e.2 e'.2) m.entries m'.entries :=
  forall₂_of_relatedIn m.sorted m'.sorted h

end Related

end SortedMap

namespace SortedSet

variable {κ : Type} [Ord κ] [TransOrd κ]

theorem contains_insert (s : SortedSet κ) (k k' : κ) :
    SortedMap.contains (s.insert k) k' ↔ compare k' k = .eq ∨ SortedMap.contains s k' :=
  SortedMap.contains_insert s k k' ()

omit [TransOrd κ] in
theorem pairwise_toList (s : SortedSet κ) : s.toList.Pairwise fun k k' => compare k k' = .lt :=
  List.pairwise_map.2 s.sorted

theorem mem_toList_insert {s : SortedSet κ} {k k' : κ} (h : k' ∈ (s.insert k).toList) :
    k' = k ∨ k' ∈ s.toList :=
  SortedMap.mem_keys_insert h

theorem insert_eq_self {s : SortedSet κ} {k : κ} (h : SortedMap.contains s k) : s.insert k = s := by
  obtain ⟨⟨⟩, hk⟩ := Option.isSome_iff_exists.1 h
  exact SortedMap.insert_eq_self hk

theorem isSubmap_insert (s : SortedSet κ) (k : κ) : SortedMap.IsSubmap s (s.insert k) :=
  SortedMap.embeds_alter (fun _ => rfl) fun _ _ => rfl

theorem contains_foldl_insert (l : List κ) (s : SortedSet κ) (k : κ) :
    SortedMap.contains (l.foldl SortedSet.insert s) k ↔
      SortedMap.contains s k ∨ ∃ k' ∈ l, compare k k' = .eq := by
  induction l generalizing s with
  | nil => simp
  | cons a rest ih =>
    rw [List.foldl_cons, ih, contains_insert]
    simp only [List.mem_cons, exists_eq_or_imp]
    tauto

theorem contains_ofList (l : List κ) (k : κ) :
    SortedMap.contains (ofList l) k ↔ ∃ k' ∈ l, compare k k' = .eq := by
  rw [ofList, contains_foldl_insert]
  simp [SortedMap.contains, SortedMap.find?_empty]

end SortedSet

end PackageRouting
