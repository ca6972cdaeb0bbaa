/-
PackageRouting/SortedMap.lean

Finite maps kept in increasing order of their keys.  Every table that shows in
an answer is one of these, so its order is part of the value and two tables
with the same look-ups over lawful keys are equal.

A key is compared with `compare`, which may identify keys that are spelled
differently.  `insert` then keeps the spelling that came first and replaces the
value; `insertNew` keeps both.  A set is a map to `Unit`.

Main results: `find?_insert` (an insertion is seen at its key and nowhere
else), `eq_of_find?` (over lawful keys the look-ups determine the map).
-/

namespace PackageRouting

open Std

/-- A finite map, as the list of its entries in increasing order of their keys. -/
structure SortedMap (κ α : Type) [Ord κ] where
  entries : List (κ × α)
  sorted : entries.Pairwise fun a b => compare a.1 b.1 = .lt

namespace SortedMap

variable {κ α : Type} [Ord κ]

/-- The map without entries. -/
def empty : SortedMap κ α := ⟨[], .nil⟩

instance : Inhabited (SortedMap κ α) := ⟨empty⟩

instance [DecidableEq κ] [DecidableEq α] : DecidableEq (SortedMap κ α) := fun a b =>
  if h : a.entries = b.entries then
    .isTrue (by cases a; cases b; simp_all)
  else
    .isFalse (by rintro rfl; exact h rfl)

theorem eq_of_entries {a b : SortedMap κ α} (h : a.entries = b.entries) : a = b := by
  cases a; cases b; simp_all

/-- The keys, in increasing order. -/
def keys (m : SortedMap κ α) : List κ := m.entries.map (·.1)

/-- The values, in the order of their keys. -/
def values (m : SortedMap κ α) : List α := m.entries.map (·.2)

def size (m : SortedMap κ α) : Nat := m.entries.length

def isEmpty (m : SortedMap κ α) : Bool := m.entries.isEmpty

/-! ### Look-up -/

/-- The value of the first entry whose key compares equal to `k`. -/
def findIn (k : κ) : List (κ × α) → Option α
  | [] => none
  | (k', v) :: rest => if compare k k' = .eq then some v else findIn k rest

/-- The value at a key. -/
def find? (m : SortedMap κ α) (k : κ) : Option α := findIn k m.entries

/-- Whether a key has a value. -/
def contains (m : SortedMap κ α) (k : κ) : Bool := (m.find? k).isSome

/-! ### Insertion -/

/-- Insertion into an ordered list of entries.  A key that compares equal is kept as it is
spelled there, and its value is given to `change`. -/
def alterIn (k : κ) (change : Option α → α) : List (κ × α) → List (κ × α)
  | [] => [(k, change none)]
  | (k', v') :: rest =>
    match compare k k' with
    | .lt => (k, change none) :: (k', v') :: rest
    | .eq => (k', change (some v')) :: rest
    | .gt => (k', v') :: alterIn k change rest

theorem key_mem_alterIn {k : κ} {change : Option α → α} {l : List (κ × α)} {e : κ × α}
    (he : e ∈ alterIn k change l) : e.1 = k ∨ ∃ e' ∈ l, e.1 = e'.1 := by
  induction l with
  | nil => simp_all [alterIn]
  | cons hd rest ih =>
    obtain ⟨k', v'⟩ := hd
    simp only [alterIn] at he
    split at he
    · rcases List.mem_cons.1 he with rfl | he
      · exact .inl rfl
      · exact .inr ⟨e, he, rfl⟩
    · rcases List.mem_cons.1 he with rfl | he
      · exact .inr ⟨(k', v'), List.mem_cons_self, rfl⟩
      · exact .inr ⟨e, List.mem_cons_of_mem _ he, rfl⟩
    · rcases List.mem_cons.1 he with rfl | he
      · exact .inr ⟨(k', v'), List.mem_cons_self, rfl⟩
      · rcases ih he with h | ⟨e', he', h⟩
        · exact .inl h
        · exact .inr ⟨e', List.mem_cons_of_mem _ he', h⟩

section Ordered

variable [TransOrd κ]

theorem sorted_alterIn (k : κ) (change : Option α → α) {l : List (κ × α)}
    (h : l.Pairwise fun a b => compare a.1 b.1 = .lt) :
    (alterIn k change l).Pairwise fun a b => compare a.1 b.1 = .lt := by
  induction l with
  | nil => simp [alterIn]
  | cons hd rest ih =>
    obtain ⟨k', v'⟩ := hd
    obtain ⟨hhd, hrest⟩ := List.pairwise_cons.1 h
    simp only [alterIn]
    split
    · next hlt =>
      refine List.pairwise_cons.2 ⟨fun e he => ?_, h⟩
      rcases List.mem_cons.1 he with rfl | he
      · exact hlt
      · exact TransCmp.lt_trans hlt (hhd e he)
    · exact List.pairwise_cons.2 ⟨fun e he => hhd e he, hrest⟩
    · next hgt =>
      refine List.pairwise_cons.2 ⟨fun e he => ?_, ih hrest⟩
      rcases key_mem_alterIn he with h1 | ⟨e', he', h1⟩
      · simpa [h1] using OrientedCmp.gt_iff_lt.1 hgt
      · simpa [h1] using hhd e' he'

/-- Changes the value at a key, which need not be there before. -/
def alter (m : SortedMap κ α) (k : κ) (change : Option α → α) : SortedMap κ α :=
  ⟨alterIn k change m.entries, sorted_alterIn k change m.sorted⟩

/-- Puts a value at a key, replacing the one that is there. -/
def insert (m : SortedMap κ α) (k : κ) (v : α) : SortedMap κ α :=
  m.alter k fun _ => v

/-- Puts a value at a key unless one is there. -/
def insertNew (m : SortedMap κ α) (k : κ) (v : α) : SortedMap κ α :=
  m.alter k fun old => old.getD v

/-- The map of a list of entries, later ones replacing earlier ones. -/
def ofList (l : List (κ × α)) : SortedMap κ α :=
  l.foldl (fun m e => m.insert e.1 e.2) empty

end Ordered

/-! ### Removal and change of all entries -/

/-- The entries that satisfy a test. -/
def filter (m : SortedMap κ α) (keep : κ → α → Bool) : SortedMap κ α :=
  ⟨m.entries.filter fun e => keep e.1 e.2, m.sorted.filter _⟩

/-- Removes a key. -/
def erase (m : SortedMap κ α) (k : κ) : SortedMap κ α :=
  m.filter fun k' _ => compare k k' != .eq

/-! ### What an insertion changes -/

theorem find?_empty (k : κ) : (empty : SortedMap κ α).find? k = none := rfl

section Laws

variable [TransOrd κ]

theorem findIn_congr {k k' : κ} (h : compare k k' = .eq) (l : List (κ × α)) :
    findIn k l = findIn k' l := by
  induction l with
  | nil => rfl
  | cons hd rest ih =>
    simp only [findIn, TransCmp.congr_left h, ih]

omit [TransOrd κ] in
theorem findIn_eq_none_of_lt {k : κ} {l : List (κ × α)}
    (h : ∀ e ∈ l, compare k e.1 = .lt) : findIn k l = none := by
  induction l with
  | nil => rfl
  | cons hd rest ih =>
    have h1 := h hd List.mem_cons_self
    simp [findIn, h1, ih fun e he => h e (List.mem_cons_of_mem _ he)]

theorem findIn_alterIn (k k' : κ) (change : Option α → α) {l : List (κ × α)}
    (hs : l.Pairwise fun a b => compare a.1 b.1 = .lt) :
    findIn k' (alterIn k change l) =
      if compare k' k = .eq then some (change (findIn k l)) else findIn k' l := by
  induction l with
  | nil => by_cases h : compare k' k = .eq <;> simp [alterIn, findIn, h]
  | cons hd rest ih =>
    obtain ⟨k₀, v₀⟩ := hd
    obtain ⟨hhd, hrest⟩ := List.pairwise_cons.1 hs
    simp only [alterIn]
    split
    · next hlt =>
      have hnone : findIn k ((k₀, v₀) :: rest) = none :=
        findIn_eq_none_of_lt fun e he => by
          rcases List.mem_cons.1 he with rfl | he
          · exact hlt
          · exact TransCmp.lt_trans hlt (hhd e he)
      by_cases h : compare k' k = .eq
      · rw [hnone]
        simp [findIn, h]
      · simp [findIn, h]
    · next heq =>
      by_cases h : compare k' k = .eq
      · have h0 : compare k' k₀ = .eq := by rw [TransCmp.congr_left h, heq]
        simp [findIn, h, h0, heq]
      · have h0 : compare k' k₀ ≠ .eq := by rwa [← TransCmp.congr_right heq]
        simp [findIn, h, h0]
    · next hgt =>
      by_cases h : compare k' k = .eq
      · have h0 : compare k' k₀ ≠ .eq := by rw [TransCmp.congr_left h, hgt]; decide
        simp [findIn, h, h0, ih hrest, hgt]
      · simp [findIn, h, ih hrest]

theorem find?_alter (m : SortedMap κ α) (k k' : κ) (change : Option α → α) :
    (m.alter k change).find? k' =
      if compare k' k = .eq then some (change (m.find? k)) else m.find? k' :=
  findIn_alterIn k k' change m.sorted

/-- **An insertion is seen at its key and nowhere else.** -/
theorem find?_insert (m : SortedMap κ α) (k k' : κ) (v : α) :
    (m.insert k v).find? k' = if compare k' k = .eq then some v else m.find? k' :=
  find?_alter m k k' _

theorem find?_insertNew (m : SortedMap κ α) (k k' : κ) (v : α) :
    (m.insertNew k v).find? k' =
      if compare k' k = .eq then some ((m.find? k).getD v) else m.find? k' :=
  find?_alter m k k' _

/-! ### Extensionality -/

theorem eq_of_findIn [LawfulEqOrd κ] {l l' : List (κ × α)}
    (hs : l.Pairwise fun a b => compare a.1 b.1 = .lt)
    (hs' : l'.Pairwise fun a b => compare a.1 b.1 = .lt)
    (h : ∀ k, findIn k l = findIn k l') : l = l' := by
  induction l generalizing l' with
  | nil =>
    cases l' with
    | nil => rfl
    | cons e' rest' => simpa [findIn] using h e'.1
  | cons e rest ih =>
    cases l' with
    | nil => simpa [findIn] using h e.1
    | cons e' rest' =>
      obtain ⟨k, v⟩ := e
      obtain ⟨k', v'⟩ := e'
      obtain ⟨hhd, hrest⟩ := List.pairwise_cons.1 hs
      obtain ⟨hhd', hrest'⟩ := List.pairwise_cons.1 hs'
      have hcmp : compare k k' = .eq := by
        cases hc : compare k k' with
        | eq => rfl
        | lt =>
          have hnone : findIn k ((k', v') :: rest') = none :=
            findIn_eq_none_of_lt fun e he => by
              rcases List.mem_cons.1 he with rfl | he
              · exact hc
              · exact TransCmp.lt_trans hc (hhd' e he)
          rw [← h k] at hnone
          simp [findIn] at hnone
        | gt =>
          have hlt : compare k' k = .lt := OrientedCmp.gt_iff_lt.1 hc
          have hnone : findIn k' ((k, v) :: rest) = none :=
            findIn_eq_none_of_lt fun e he => by
              rcases List.mem_cons.1 he with rfl | he
              · exact hlt
              · exact TransCmp.lt_trans hlt (hhd e he)
          rw [h k'] at hnone
          simp [findIn] at hnone
      have hk : k = k' := LawfulEqCmp.eq_of_compare hcmp
      subst hk
      have hv : v = v' := by simpa [findIn] using h k
      subst hv
      congr 1
      refine ih hrest hrest' fun x => ?_
      by_cases hx : compare x k = .eq
      · rw [findIn_congr hx, findIn_congr hx, findIn_eq_none_of_lt hhd,
          findIn_eq_none_of_lt hhd']
      · simpa [findIn, hx] using h x

/-- **Over lawful keys the look-ups determine the map.** -/
theorem eq_of_find? [LawfulEqOrd κ] {a b : SortedMap κ α}
    (h : ∀ k, a.find? k = b.find? k) : a = b :=
  eq_of_entries (eq_of_findIn a.sorted b.sorted h)

end Laws

end SortedMap

/-- A finite set, in increasing order. -/
abbrev SortedSet (κ : Type) [Ord κ] := SortedMap κ Unit

namespace SortedSet

variable {κ : Type} [Ord κ]

/-- The members, in increasing order. -/
def toList (s : SortedSet κ) : List κ := SortedMap.keys s

variable [TransOrd κ]

/-- Adds a member; an equal one that is there already stays as it is spelled. -/
def insert (s : SortedSet κ) (k : κ) : SortedSet κ := SortedMap.insert s k ()

/-- The set of the members of a list. -/
def ofList (l : List κ) : SortedSet κ := l.foldl SortedSet.insert SortedMap.empty

end SortedSet

end PackageRouting
