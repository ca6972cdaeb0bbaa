/-
PackageRouting/Proofs/Json/Keys.lean

Every object that is read has each key once.

Reading is followed by what a reader yields when it succeeds (`Reader.Yields`),
whatever the text and however much of it is taken.  A member goes into the
members so far by `putMember`, which keeps their keys distinct.

Main result: `keysDistinct_of_parse`.
-/
import Mathlib.Data.List.Nodup
import PackageRouting.Json.Parser

namespace PackageRouting.Json

/-! ### Distinct keys -/

/-- Each key stands once. -/
def HasDistinctKeys (members : List (String × Json)) : Prop := (members.map (·.1)).Nodup

/-- Every object in the value, at whatever depth, has each key once. -/
inductive KeysDistinct : Json → Prop
  | null : KeysDistinct .null
  | bool (b : Bool) : KeysDistinct (.bool b)
  | number (n : Number) : KeysDistinct (.number n)
  | string (s : String) : KeysDistinct (.string s)
  | array {items : List Json} (h : ∀ j ∈ items, KeysDistinct j) : KeysDistinct (.array items)
  | object {members : List (String × Json)} (hdistinct : HasDistinctKeys members)
      (h : ∀ m ∈ members, KeysDistinct m.2) : KeysDistinct (.object members)

variable {key : String} {value : Json} {members : List (String × Json)}

theorem keysDistinct_object_iff :
    KeysDistinct (.object members) ↔ HasDistinctKeys members ∧ ∀ m ∈ members, KeysDistinct m.2 := by
  constructor
  · rintro ⟨⟩
    exact ⟨‹_›, ‹_›⟩
  · exact fun h => .object h.1 h.2

/-- Putting a member in adds none but that one. -/
theorem mem_of_mem_putMember {m : String × Json} (h : m ∈ putMember key value members) :
    m = (key, value) ∨ m ∈ members := by
  induction members with
  | nil => exact .inl (List.mem_singleton.1 h)
  | cons x rest ih =>
    rw [putMember] at h
    split at h
    · next hkey =>
      rcases List.mem_cons.1 h with rfl | h
      · exact .inl (by rw [hkey])
      · exact .inr (List.mem_cons_of_mem _ h)
    · rcases List.mem_cons.1 h with rfl | h
      · exact .inr List.mem_cons_self
      · exact (ih h).imp_right (List.mem_cons_of_mem _)

/-- A key that is there already gets the new value and no second place. -/
theorem hasDistinctKeys_putMember (h : HasDistinctKeys members) :
    HasDistinctKeys (putMember key value members) := by
  induction members with
  | nil => exact List.nodup_singleton _
  | cons x rest ih =>
    obtain ⟨hx, hrest⟩ := List.nodup_cons.1 h
    rw [putMember]
    split
    · exact h
    · next hkey =>
      refine List.nodup_cons.2 ⟨fun hmem => ?_, ih hrest⟩
      obtain ⟨m, hm, heq⟩ := List.mem_map.1 hmem
      rcases mem_of_mem_putMember hm with rfl | hm
      · exact hkey heq.symm
      · exact hx (heq ▸ List.mem_map_of_mem hm)

/-! ### What readers yield -/

namespace Reader

variable {α β : Type} {r : Reader α} {f : α → Reader β} {P : α → Prop} {Q : β → Prop}

/-- What is read, if anything, has the property. -/
def Yields (r : Reader α) (P : α → Prop) : Prop :=
  ∀ here a there, r here = .ok (a, there) → P a

theorem yields_pure {a : α} (h : P a) : Yields (pure a) P := by
  intro here b there hread
  obtain ⟨rfl, rfl⟩ := Prod.mk.inj (Except.ok.inj hread)
  exact h

/-- The property of a reader is what the reader behind it may rely on. -/
theorem Yields.bind (h : Yields r P) (hf : ∀ a, P a → Yields (f a) Q) : Yields (r >>= f) Q := by
  intro here b there hread
  replace hread : (r here >>= fun x => f x.1 x.2) = .ok (b, there) := hread
  cases hr : r here with
  | error e =>
    rw [hr] at hread
    cases hread
  | ok x =>
    rw [hr] at hread
    exact hf x.1 (h here x.1 x.2 hr) x.2 b there hread

/-- What comes before may read anything. -/
theorem yields_bind (hf : ∀ a, Yields (f a) Q) : Yields (r >>= f) Q :=
  Yields.bind (P := fun _ => True) (fun _ _ _ _ => trivial) fun a _ => hf a

/-- A reader that fails yields nothing. -/
theorem yields_failHere {fault : Fault} : Yields (failHere fault) P := by
  intro here a there hread
  cases hread

theorem yields_failNext {fault : Fault} : Yields (failNext fault) P := by
  intro here a there hread
  cases hread

end Reader

open Reader

/-! ### Lists and objects -/

/-- Every item of a list has what the reader of the items yields. -/
theorem yields_readMoreItems {α : Type} {item : Reader α} {P : α → Prop} (h : Yields item P)
    (turns : List Char) : Yields (readMoreItems item turns) fun items => ∀ a ∈ items, P a := by
  induction turns with
  | nil => exact yields_failHere
  | cons c turns ih =>
    refine yields_bind fun token => ?_
    split
    · exact yields_failHere
    · exact yields_bind fun _ => yields_pure (List.forall_mem_nil _)
    · refine yields_bind fun _ => yields_bind fun token => ?_
      split
      · exact yields_failHere
      · exact yields_failNext
      · exact h.bind fun a ha => ih.bind fun items hitems =>
          yields_pure (List.forall_mem_cons.2 ⟨ha, hitems⟩)
    · exact yields_failNext

theorem yields_readItems {α : Type} {item : Reader α} {P : α → Prop} (h : Yields item P) :
    Yields (readItems item) fun items => ∀ a ∈ items, P a := by
  refine yields_bind fun _ => yields_bind fun token => ?_
  split
  · exact yields_failHere
  · exact yields_bind fun _ => yields_pure (List.forall_mem_nil _)
  · exact h.bind fun a ha => yields_bind fun here => (yields_readMoreItems h _).bind
      fun items hitems => yields_pure (List.forall_mem_cons.2 ⟨ha, hitems⟩)

/-- **A member is read into members with distinct keys**, and the keys stay distinct. -/
theorem yields_readMembers {value : Reader Json} (h : Yields value KeysDistinct)
    (turns : List Char) : ∀ members, KeysDistinct (.object members) →
      Yields (readMembers value turns members) fun members => KeysDistinct (.object members) := by
  induction turns with
  | nil => exact fun _ _ => yields_failHere
  | cons c turns ih =>
    intro members hmembers
    refine yields_bind fun isKey => ?_
    split
    · refine yields_bind fun key => yields_bind fun _ => h.bind fun v hv => ih _ ?_
      obtain ⟨hdistinct, hvalues⟩ := keysDistinct_object_iff.1 hmembers
      refine .object (hasDistinctKeys_putMember hdistinct) fun m hm => ?_
      rcases mem_of_mem_putMember hm with rfl | hm
      · exact hv
      · exact hvalues m hm
    · exact yields_pure hmembers

/-! ### Values -/

theorem yields_readScalar : Yields readScalar KeysDistinct := by
  refine yields_bind fun c => ?_
  split
  · exact yields_failHere
  · exact yields_bind fun _ => yields_pure .null
  · exact yields_bind fun _ => yields_pure (.bool true)
  · exact yields_bind fun _ => yields_pure (.bool false)
  · exact yields_bind fun s => yields_pure (.string s)
  · split
    · exact yields_bind fun n => yields_pure (.number n)
    · exact yields_failNext

/-- A value has each key once, by induction on the depth that is left for it. -/
theorem yields_readValue (depth : Nat) : Yields (readValue depth) KeysDistinct := by
  induction depth with
  | zero =>
    refine yields_bind fun token => ?_
    split
    · exact yields_failNext
    · exact yields_failNext
    · exact yields_readScalar
  | succ depth ih =>
    refine yields_bind fun token => ?_
    split
    · exact (yields_readItems ih).bind fun items hitems => yields_pure (.array hitems)
    · have hempty : KeysDistinct (.object []) :=
        .object List.nodup_nil (List.forall_mem_nil _)
      exact yields_bind fun _ => yields_bind fun here =>
        (yields_readMembers ih _ [] hempty).bind fun members hmembers => yields_pure hmembers
    · exact yields_readScalar

/-- **Every object that is read has each key once.** -/
theorem keysDistinct_of_parse {text : String} {j : Json} (h : parse text = .ok j) :
    KeysDistinct j := by
  have hend : Yields (untilEnd (readValue deepest)) KeysDistinct := by
    refine (yields_readValue deepest).bind fun j hj => yields_bind fun token => ?_
    split
    · exact yields_pure hj
    · exact yields_failNext
  rw [parse, readText] at h
  cases hread : untilEnd (readValue deepest) ⟨text.toList, 1, 0⟩ with
  | error e =>
    rw [hread] at h
    cases h
  | ok x =>
    rw [hread] at h
    obtain rfl : x.1 = j := Except.ok.inj h
    exact hend _ x.1 x.2 hread

end PackageRouting.Json
