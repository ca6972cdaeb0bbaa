/-
PackageRouting/Proofs/Exports/Target.lean

Which text a JSON value gives as a target, and which target a text makes.

`HasText` and `NoText` say which values are usable and what their text is,
without computing it: a string is its own text, a list has the text of its first
usable item, and an object that of its `default` member.

Behind a plain destination every text is a path.  Behind a destination pattern a
text with glob characters must be a pattern, before it is seen from the
package's directory and after.

Main results: `hasText_iff`, `patternTarget_eq_ok_iff`.
-/
import PackageRouting.Exports.Resolution
import PackageRouting.Proofs.Except
import PackageRouting.Proofs.Pattern

namespace PackageRouting

namespace Json

theorem mem_of_memberIn? {key : String} {members : List (String × Json)} {value : Json}
    (h : memberIn? key members = some value) : (key, value) ∈ members := by
  induction members with
  | nil => cases h
  | cons m rest ih =>
    obtain ⟨k, v⟩ := m
    rw [memberIn?] at h
    split at h
    · next hk =>
      subst hk
      obtain rfl := Option.some.inj h
      exact List.mem_cons_self
    · exact List.mem_cons_of_mem _ (ih h)

/-- Induction over values: a list is settled once its items are, and an object once the values of
its members are. -/
@[elab_as_elim]
theorem ind {motive : Json → Prop} (null : motive .null) (bool : ∀ b, motive (.bool b))
    (number : ∀ n, motive (.number n)) (string : ∀ s, motive (.string s))
    (array : ∀ items, (∀ item ∈ items, motive item) → motive (.array items))
    (object : ∀ members, (∀ m ∈ members, motive m.2) → motive (.object members)) :
    ∀ j, motive j
  | .null => null
  | .bool b => bool b
  | .number n => number n
  | .string s => string s
  | .array items => array items fun item hitem =>
      have hlt : sizeOf item < sizeOf (Json.array items) :=
        Nat.lt_of_lt_of_le (List.sizeOf_lt_of_mem hitem) (by simp)
      ind null bool number string array object item
  | .object members => object members fun m hm =>
      have hlt : sizeOf m.2 < sizeOf (Json.object members) := by
        have hmember := List.sizeOf_lt_of_mem hm
        obtain ⟨key, value⟩ := m
        simp at hmember ⊢
        omega
      ind null bool number string array object m.2
  termination_by j => sizeOf j
  decreasing_by all_goals exact hlt

end Json

namespace Resolution

/-! ### Texts -/

mutual

/-- The value is usable as a target, with the given text. -/
inductive HasText : Json → String → Prop
  | string (text : String) : HasText (.string text) text
  /-- A list has the text of its first usable item. -/
  | array {earlier later : List Json} {item : Json} {text : String}
      (hearlier : ∀ j ∈ earlier, NoText j) (hitem : HasText item text) :
      HasText (.array (earlier ++ item :: later)) text
  /-- An object has the text of its `default` member. -/
  | object {members : List (String × Json)} {value : Json} {text : String}
      (hmember : Json.memberIn? "default" members = some value) (hvalue : HasText value text) :
      HasText (.object members) text

/-- The value is not usable as a target. -/
inductive NoText : Json → Prop
  | null : NoText .null
  | bool (value : Bool) : NoText (.bool value)
  | number (value : Json.Number) : NoText (.number value)
  | array {items : List Json} (hitems : ∀ j ∈ items, NoText j) : NoText (.array items)
  | object {members : List (String × Json)}
      (hmember : ∀ value, Json.memberIn? "default" members = some value → NoText value) :
      NoText (.object members)

end

section Inversion

variable {items : List Json} {members : List (String × Json)} {text : String}

theorem hasText_array_iff : HasText (.array items) text ↔
    ∃ earlier item later, items = earlier ++ item :: later ∧ HasText item text ∧
      ∀ j ∈ earlier, NoText j := by
  constructor
  · intro h
    cases h with
    | array hearlier hitem => exact ⟨_, _, _, rfl, hitem, hearlier⟩
  · rintro ⟨earlier, item, later, rfl, hitem, hearlier⟩
    exact .array hearlier hitem

theorem noText_array_iff : NoText (.array items) ↔ ∀ j ∈ items, NoText j := by
  constructor
  · intro h
    cases h with
    | array hitems => exact hitems
  · exact .array

theorem hasText_object_iff : HasText (.object members) text ↔
    ∃ value, Json.memberIn? "default" members = some value ∧ HasText value text := by
  constructor
  · intro h
    cases h with
    | object hmember hvalue => exact ⟨_, hmember, hvalue⟩
  · rintro ⟨value, hmember, hvalue⟩
    exact .object hmember hvalue

theorem noText_object_iff : NoText (.object members) ↔
    ∀ value, Json.memberIn? "default" members = some value → NoText value := by
  constructor
  · intro h
    cases h with
    | object hmember => exact hmember
  · exact .object

end Inversion

theorem targetText?_array (items : List Json) :
    targetText? (.array items) = items.findSome? targetText? := by
  rw [targetText?]
  induction items with
  | nil => rfl
  | cons item rest ih =>
    rw [firstTargetText?, List.findSome?_cons, ih]
    cases targetText? item <;> rfl

theorem targetText?_object (members : List (String × Json)) :
    targetText? (.object members) =
      (Json.memberIn? "default" members).bind targetText? := by
  rw [targetText?]
  induction members with
  | nil => rfl
  | cons m rest ih =>
    obtain ⟨key, value⟩ := m
    rw [defaultTargetText?, Json.memberIn?, ih]
    split <;> rfl

/-- Usable values have the text that is computed, and for the others none is computed. -/
theorem targetText?_spec (j : Json) :
    (∀ text, HasText j text ↔ targetText? j = some text) ∧ (NoText j ↔ targetText? j = none) := by
  induction j using Json.ind with
  | null => exact ⟨fun text => ⟨nofun, nofun⟩, fun _ => rfl, fun _ => .null⟩
  | bool b => exact ⟨fun text => ⟨nofun, nofun⟩, fun _ => rfl, fun _ => .bool b⟩
  | number n => exact ⟨fun text => ⟨nofun, nofun⟩, fun _ => rfl, fun _ => .number n⟩
  | string s =>
    refine ⟨fun text => ⟨?_, ?_⟩, nofun, nofun⟩
    · rintro ⟨⟩
      rfl
    · rintro ⟨⟩
      exact .string s
  | array items ih =>
    rw [targetText?_array, noText_array_iff, List.findSome?_eq_none_iff]
    refine ⟨fun text => ?_, forall₂_congr fun j hj => (ih j hj).2⟩
    rw [hasText_array_iff, List.findSome?_eq_some_iff]
    constructor
    · rintro ⟨earlier, item, later, rfl, hitem, hearlier⟩
      refine ⟨earlier, item, later, rfl, ((ih item (by simp)).1 text).1 hitem, fun j hj => ?_⟩
      exact (ih j (by simp [hj])).2.1 (hearlier j hj)
    · rintro ⟨earlier, item, later, rfl, hitem, hearlier⟩
      refine ⟨earlier, item, later, rfl, ((ih item (by simp)).1 text).2 hitem, fun j hj => ?_⟩
      exact (ih j (by simp [hj])).2.2 (hearlier j hj)
  | object members ih =>
    have hvalue : ∀ value, Json.memberIn? "default" members = some value → _ :=
      fun value h => ih _ (Json.mem_of_memberIn? h)
    rw [targetText?_object, noText_object_iff, Option.bind_eq_none_iff]
    refine ⟨fun text => ?_, forall₂_congr fun value h => (hvalue value h).2⟩
    rw [hasText_object_iff, Option.bind_eq_some_iff]
    exact exists_congr fun value => and_congr_right fun h => (hvalue value h).1 text

/-- **A value is usable with a text iff that is the text that is computed.** -/
theorem hasText_iff {j : Json} {text : String} : HasText j text ↔ targetText? j = some text :=
  (targetText?_spec j).1 text

/-! ### Targets -/

variable {root : Path} {text : String} {target : Target}

/-- The target of a text behind a plain destination. -/
def IsExactTarget (root : Path) (text : String) (target : Target) : Prop :=
  target = .path (root.joinNormalized text)

/-- The target of a text behind a destination pattern: a path if the text has no glob character,
and otherwise a pattern, if there is a single wildcard before the text is seen from the directory
and after. -/
inductive IsPatternTarget (root : Path) (text : String) : Target → Prop
  | path (h : ¬ isGlob text) : IsPatternTarget root text (.path (root.joinNormalized text))
  | pattern {p : Pattern} (h : text.toList.count '*' = 1)
      (hp : p.text = (root.joinNormalized text).toSlash) (hcount : p.text.toList.count '*' = 1) :
      IsPatternTarget root text (.pattern p)

/-- **A text behind a destination pattern makes the target that it should**, and no other. -/
theorem patternTarget_eq_ok_iff :
    patternTarget root text = .ok target ↔ IsPatternTarget root text target := by
  rw [patternTarget]
  split
  · next hglob =>
    constructor
    · intro h
      obtain ⟨p, hparse, h⟩ := bind_eq_ok_iff.1 h
      obtain ⟨q, hrooted, h⟩ := bind_eq_ok_iff.1 h
      obtain rfl := Except.ok.inj h
      obtain ⟨hcount, rfl⟩ := Pattern.parse_eq_ok_iff.1 hparse
      rw [Pattern.rooted] at hrooted
      obtain ⟨hcount', htext⟩ := Pattern.parse_eq_ok_iff.1 hrooted
      rw [← htext] at hcount'
      exact .pattern hcount htext hcount'
    · intro h
      cases h with
      | path h => exact absurd hglob h
      | @pattern q hcount htext hcount' =>
        obtain ⟨p, hparse⟩ := Pattern.exists_parse hcount
        obtain ⟨-, rfl⟩ := Pattern.parse_eq_ok_iff.1 hparse
        have hrooted : p.rooted root = .ok q := by
          rw [Pattern.rooted]
          rw [htext] at hcount'
          exact Pattern.parse_eq_ok_iff.2 ⟨hcount', htext⟩
        exact bind_eq_ok_iff.2 ⟨p, hparse, bind_eq_ok_iff.2 ⟨q, hrooted, rfl⟩⟩
  · next hglob =>
    constructor
    · intro h
      obtain rfl := Except.ok.inj h
      exact .path hglob
    · intro h
      cases h with
      | path _ => rfl
      | pattern hcount => exact absurd (Pattern.isGlob_of_count hcount) hglob

end Resolution

end PackageRouting
