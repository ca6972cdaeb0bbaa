/-
PackageRouting/Proofs/Exports/Reordering.lean

Where the order of the keys in a manifest matters.

Of several targets for one destination and condition the first counts.  But an
object has each key once (`keysDistinct_exports`), different keys name different
destinations, and different condition keys different conditions, so that hardly
ever there are several.  The exception is a module package, where `import` and
`default` are one condition.

Hence everything else may stand in any order (`ofManifest_reordered`, and
`ofManifest_reordered_of_parse` for what was read from a text): what is searched
for has one key, or the two keys whose order is kept (`findSome?_eq_of_perm`).
-/
import Mathlib.Data.List.Nodup
import PackageRouting.Proofs.Exports.Resolution
import PackageRouting.Proofs.Json.Keys

namespace PackageRouting

/-! ### Lists with keys -/

section Keyed

variable {α β κ : Type} {key : α → κ} {p : κ → Bool} {l l' : List α} {ks ks' : List κ}

/-- The keys tell in which order the members stand, if they are different. -/
theorem eq_of_perm_of_map_eq (hperm : l.Perm l') (hnodup : (l.map key).Nodup)
    (hmap : l.map key = l'.map key) : l = l' := by
  refine List.ext_getElem hperm.length_eq fun i hi hi' => ?_
  have hkey : key l[i] = key l'[i] := by
    have hget : (l.map key)[i]? = (l'.map key)[i]? := by rw [hmap]
    simpa [hi, hi'] using hget
  exact List.inj_on_of_nodup_map hnodup (List.getElem_mem hi)
    (hperm.mem_iff.2 (List.getElem_mem hi')) hkey

/-- A test that admits one key only finds the same in any order. -/
theorem filter_eq_of_perm {a : κ} (hp : ∀ k, p k → k = a) (hperm : ks.Perm ks') :
    ks.filter p = ks'.filter p := by
  have hsame : ks'.filter p = List.replicate (ks'.filter p).length a :=
    List.eq_replicate_of_mem fun k hk => hp k (List.mem_filter.1 hk).2
  have hfilter := hperm.filter p
  rw [hsame] at hfilter ⊢
  exact List.perm_replicate.1 hfilter

/-- **A search among members with different keys finds the same in any order that keeps the order
of the keys it is about.** -/
theorem findSome?_eq_of_perm {f : α → Option β} (hperm : l.Perm l') (hnodup : (l.map key).Nodup)
    (hf : ∀ x, (f x).isSome → p (key x)) (hkeys : (l.map key).filter p = (l'.map key).filter p) :
    l.findSome? f = l'.findSome? f := by
  have hsearch : ∀ l : List α, l.findSome? f = (l.filter (p ∘ key)).findSome? f := by
    intro l
    rw [← List.filterMap_eq_filter, findSome?_filterMap]
    congr 1
    funext x
    by_cases hx : p (key x)
    · simp [Option.guard, hx]
    · have hnone : f x = none := by
        rw [← Option.not_isSome_iff_eq_none]
        exact fun hsome => hx (hf x hsome)
      simp [Option.guard, hx, hnone]
  have hfilter : l.filter (p ∘ key) = l'.filter (p ∘ key) := by
    apply eq_of_perm_of_map_eq (hperm.filter _) (hnodup.sublist (List.filter_sublist.map key))
    rw [← List.filter_map, ← List.filter_map, hkeys]
  rw [hsearch, hfilter, ← hsearch]

variable {f : α → Option β}

theorem filterMap_eq_of_forall₂ (h : List.Forall₂ (fun x y => f x = f y) l l') :
    l.filterMap f = l'.filterMap f := by
  induction h with
  | nil => rfl
  | cons hhead _ ih => rw [List.filterMap_cons, List.filterMap_cons, hhead, ih]

theorem findSome?_eq_of_forall₂ (h : List.Forall₂ (fun x y => f x = f y) l l') :
    l.findSome? f = l'.findSome? f := by
  rw [← List.head?_filterMap, filterMap_eq_of_forall₂ h, List.head?_filterMap]

theorem map_fst_eq_of_forall₂ {R : β → β → Prop} {l l' : List (κ × β)}
    (h : List.Forall₂ (fun x y => x.1 = y.1 ∧ R x.2 y.2) l l') : l.map (·.1) = l'.map (·.1) := by
  induction h with
  | nil => rfl
  | cons hhead _ ih => rw [List.map_cons, List.map_cons, hhead.1, ih]

theorem perm_flatMap_of_forall₂ {g : α → List β}
    (h : List.Forall₂ (fun x y => (g x).Perm (g y)) l l') : (l.flatMap g).Perm (l'.flatMap g) := by
  induction h with
  | nil => exact .nil
  | cons hhead _ ih =>
    rw [List.flatMap_cons, List.flatMap_cons]
    exact hhead.append ih

end Keyed

/-! ### Values -/

namespace Json

/-- The members of an object in another order, with values that are related. -/
def MembersReordered (R : Json → Json → Prop) (members members' : List (String × Json)) : Prop :=
  ∃ middle, members.Perm middle ∧
    List.Forall₂ (fun x y => x.1 = y.1 ∧ R x.2 y.2) middle members'

theorem MembersReordered.mem_keys_iff {R : Json → Json → Prop}
    {members members' : List (String × Json)} (h : MembersReordered R members members')
    (key : String) : key ∈ members.map (·.1) ↔ key ∈ members'.map (·.1) := by
  obtain ⟨middle, hperm, hsame⟩ := h
  rw [← map_fst_eq_of_forall₂ hsame]
  exact (hperm.map _).mem_iff

/-- The members in their new order, before their values are related to others. -/
theorem MembersReordered.exists_middle {R : Json → Json → Prop}
    {members members' : List (String × Json)} (h : MembersReordered R members members')
    (hkeys : KeysDistinct (.object members)) :
    ∃ middle, members.Perm middle ∧ List.Forall₂ (fun x y =>
      KeysDistinct x.2 ∧ x.1 = y.1 ∧ R x.2 y.2) middle members' := by
  obtain ⟨middle, hperm, hsame⟩ := h
  have hvalues := (keysDistinct_object_iff.1 hkeys).2
  have hmiddle : ∀ x ∈ middle, KeysDistinct x.2 := fun x hx => hvalues x (hperm.mem_iff.2 hx)
  exact ⟨middle, hperm, (List.forall₂_and_left middle members').2 ⟨hmiddle, hsame⟩⟩

/-- The value with members of its objects, at whatever depth, in another order. -/
inductive Reordered : Json → Json → Prop
  | refl (j : Json) : Reordered j j
  | trans {i j k : Json} (h : Reordered i j) (h' : Reordered j k) : Reordered i k
  | members {members members' : List (String × Json)} (hperm : members.Perm members') :
      Reordered (.object members) (.object members')
  | member {j j' : Json} (before after : List (String × Json)) (key : String)
      (h : Reordered j j') :
      Reordered (.object (before ++ (key, j) :: after)) (.object (before ++ (key, j') :: after))
  | item {j j' : Json} (before after : List Json) (h : Reordered j j') :
      Reordered (.array (before ++ j :: after)) (.array (before ++ j' :: after))

/-- The keys stay distinct. -/
theorem KeysDistinct.reordered {j j' : Json} (hkeys : KeysDistinct j) (h : Reordered j j') :
    KeysDistinct j' := by
  induction h with
  | refl j => exact hkeys
  | trans _ _ ih ih' => exact ih' (ih hkeys)
  | members hperm =>
    obtain ⟨hdistinct, hvalues⟩ := keysDistinct_object_iff.1 hkeys
    exact .object ((hperm.map _).nodup_iff.1 hdistinct) fun m hm => hvalues m (hperm.mem_iff.2 hm)
  | member before after key _ ih =>
    rw [keysDistinct_object_iff] at hkeys ⊢
    simp only [HasDistinctKeys, List.map_append, List.map_cons, List.forall_mem_append,
      List.forall_mem_cons] at hkeys ⊢
    exact ⟨hkeys.1, hkeys.2.1, ih hkeys.2.2.1, hkeys.2.2.2⟩
  | item before after _ ih =>
    cases hkeys with
    | array hitems =>
      simp only [List.forall_mem_append, List.forall_mem_cons] at hitems
      refine .array ?_
      simp only [List.forall_mem_append, List.forall_mem_cons]
      exact ⟨hitems.1, ih hitems.2.1, hitems.2.2⟩

theorem memberIn?_eq_findSome? (key : String) (members : List (String × Json)) :
    memberIn? key members = members.findSome? fun m => if m.1 = key then some m.2 else none := by
  induction members with
  | nil => rfl
  | cons m rest ih =>
    rw [memberIn?, List.findSome?_cons, ih]
    split <;> rfl

theorem memberIn?_eq_of_perm {members members' : List (String × Json)}
    (hdistinct : HasDistinctKeys members) (hperm : members.Perm members') (key : String) :
    memberIn? key members = memberIn? key members' := by
  rw [memberIn?_eq_findSome?, memberIn?_eq_findSome?]
  refine findSome?_eq_of_perm (p := (· = key)) hperm hdistinct ?_ ?_
  · intro m hm
    by_contra hkey
    rw [if_neg (by simpa using hkey)] at hm
    cases hm
  · exact filter_eq_of_perm (fun k hk => of_decide_eq_true hk) (hperm.map _)

end Json

namespace Resolution

open ExportsTable (addAll targetAt?)
open Json (HasDistinctKeys KeysDistinct MembersReordered Reordered keysDistinct_object_iff)

variable {moduleType : ModuleType} {root : Path} {members members' : List (String × Json)}
  {value value' : Json} {c : Condition} {makes : String → Option Target}

/-- **A value in another order is the same target.** -/
theorem targetText?_reordered (hkeys : KeysDistinct value) (h : Reordered value value') :
    targetText? value = targetText? value' := by
  induction h with
  | refl j => rfl
  | trans h _ ih ih' => exact (ih hkeys).trans (ih' (hkeys.reordered h))
  | members hperm =>
    have hdistinct := (keysDistinct_object_iff.1 hkeys).1
    rw [targetText?_object, targetText?_object, Json.memberIn?_eq_of_perm hdistinct hperm]
  | @member j j' before after key _ ih =>
    have hvalue : KeysDistinct j := (keysDistinct_object_iff.1 hkeys).2 (key, j) (by simp)
    rw [targetText?_object, targetText?_object, Json.memberIn?_eq_findSome?,
      Json.memberIn?_eq_findSome?, List.findSome?_append, List.findSome?_append,
      List.findSome?_cons, List.findSome?_cons]
    cases before.findSome? fun m => if m.1 = "default" then some m.2 else none with
    | some v => rfl
    | none => by_cases hkey : key = "default" <;> simp [hkey, ih hvalue]
  | @item j j' before after _ ih =>
    have hitem : KeysDistinct j := by
      cases hkeys with
      | array hitems => exact hitems j (by simp)
    rw [targetText?_array, targetText?_array, List.findSome?_append, List.findSome?_append,
      List.findSome?_cons, List.findSome?_cons, ih hitem]

/-! ### Destinations -/

/-- The condition keys that mean `import` in a module package. -/
def isImportKey (key : String) : Bool := key = "import" ∨ key = "default"

/-- The conditions of a destination in another order.  In a module package `import` and `default`
keep theirs. -/
structure ConditionsReordered (moduleType : ModuleType)
    (conditions conditions' : List (String × Json)) : Prop where
  reordered : MembersReordered Reordered conditions conditions'
  kept : moduleType = .module →
    (conditions.map (·.1)).filter isImportKey = (conditions'.map (·.1)).filter isImportKey

/-- The value of a destination with its conditions in another order. -/
def ValueReordered (moduleType : ModuleType) (value value' : Json) : Prop :=
  ConditionsReordered moduleType (conditionsOf value) (conditionsOf value')

theorem ValueReordered.refl (value : Json) : ValueReordered moduleType value value where
  reordered := ⟨_, .rfl, List.forall₂_same.2 fun _ _ => ⟨rfl, .refl _⟩⟩
  kept _ := rfl

theorem keysDistinct_conditionsOf (h : KeysDistinct value) :
    KeysDistinct (.object (conditionsOf value)) := by
  have hsingle : ∀ value, KeysDistinct value → KeysDistinct (.object [("default", value)]) :=
    fun value h => .object (List.nodup_singleton _) (List.forall_mem_singleton.2 h)
  cases value with
  | object members => exact h
  | _ => exact hsingle _ h

/-- A condition is named by one key, but for `import` in a module package. -/
theorem eq_key_of_remapDefault {key : String} (h : ¬ (moduleType = .module ∧ c = .importModule))
    (hkey : (Condition.ofKey key).remapDefault moduleType = c) : key = c.key := by
  have hsame : Condition.ofKey key = c := by
    cases hof : Condition.ofKey key with
    | default =>
      rw [hof, Condition.remapDefault] at hkey
      split at hkey
      · next hmodule => exact absurd ⟨hmodule, hkey.symm⟩ h
      · exact hkey
    | _ =>
      rw [hof] at hkey
      exact hkey
  rw [← hsame, Condition.key_ofKey]

theorem remapDefault_eq_import_iff {key : String} :
    (Condition.ofKey key).remapDefault .module = .importModule ↔ isImportKey key := by
  constructor
  · intro h
    rw [← Condition.key_ofKey key]
    cases hof : Condition.ofKey key with
    | importModule => rfl
    | default => rfl
    | _ =>
      rw [hof] at h
      cases h
  · intro h
    rcases of_decide_eq_true h with rfl | rfl <;> rfl

theorem targetFor?_reordered {x y : String × Json} (hkeys : KeysDistinct x.2) (hkey : x.1 = y.1)
    (hvalue : Reordered x.2 y.2) :
    targetFor? makes moduleType c x = targetFor? makes moduleType c y := by
  rw [targetFor?, targetFor?, hkey, targetText?_reordered hkeys hvalue]

/-- **Conditions in another order make the same target.** -/
theorem ConditionsReordered.findSome?_targetFor? {conditions conditions' : List (String × Json)}
    (hkeys : KeysDistinct (.object conditions))
    (h : ConditionsReordered moduleType conditions conditions') :
    conditions.findSome? (targetFor? makes moduleType c) =
      conditions'.findSome? (targetFor? makes moduleType c) := by
  have hdistinct := (keysDistinct_object_iff.1 hkeys).1
  obtain ⟨middle, hperm, hsame⟩ := h.reordered.exists_middle hkeys
  have hfst : middle.map (·.1) = conditions'.map (·.1) :=
    map_fst_eq_of_forall₂ (hsame.imp fun _ _ hxy => hxy.2)
  have hsearch : middle.findSome? (targetFor? makes moduleType c) = _ :=
    findSome?_eq_of_forall₂ (hsame.imp
      fun x y hxy => targetFor?_reordered hxy.1 hxy.2.1 hxy.2.2)
  rw [← hsearch]
  refine findSome?_eq_of_perm
    (p := fun key => (Condition.ofKey key).remapDefault moduleType = c) hperm hdistinct ?_ ?_
  · intro x hx
    rw [targetFor?] at hx
    split at hx
    · next hc => exact decide_eq_true hc
    · cases hx
  · by_cases himport : moduleType = .module ∧ c = .importModule
    · obtain ⟨rfl, rfl⟩ := himport
      simp only [remapDefault_eq_import_iff, Bool.decide_eq_true]
      rw [hfst]
      exact h.kept rfl
    · exact filter_eq_of_perm
        (fun key hkey => eq_key_of_remapDefault himport (of_decide_eq_true hkey)) (hperm.map _)

section Value

variable (hkeys : KeysDistinct value) (h : ValueReordered moduleType value value')
include hkeys h

theorem exactEntry_reordered :
    exactEntry root (routes moduleType value) = exactEntry root (routes moduleType value') := by
  refine SortedMap.eq_of_find? fun c => ?_
  rw [find?_exactEntry, find?_exactEntry,
    h.findSome?_targetFor? (keysDistinct_conditionsOf hkeys)]

theorem patternEntry_reordered :
    patternEntry root (routes moduleType value) = patternEntry root (routes moduleType value') := by
  refine SortedMap.eq_of_find? fun c => ?_
  rw [find?_patternEntry, find?_patternEntry,
    h.findSome?_targetFor? (keysDistinct_conditionsOf hkeys)]

theorem perm_routes_reordered : (routes moduleType value).Perm (routes moduleType value') := by
  obtain ⟨middle, hperm, hsame⟩ := h.reordered.exists_middle (keysDistinct_conditionsOf hkeys)
  rw [routes_eq, routes_eq]
  refine (hperm.filterMap _).trans (.of_eq (filterMap_eq_of_forall₂ (hsame.imp ?_)))
  rintro x y ⟨hdistinct, hkey, hvalue⟩
  rw [hkey, targetText?_reordered hdistinct hvalue]

theorem perm_targetErrors_reordered :
    (targetErrors root (routes moduleType value)).Perm
      (targetErrors root (routes moduleType value')) :=
  (perm_routes_reordered hkeys h).filterMap _

end Value

/-! ### Members -/

/-- What is reported about a member of an object of subpaths. -/
def memberErrors (moduleType : ModuleType) (root : Path) (m : String × Json) :
    List PatternShapeError :=
  if isSubpath m.1 ∧ isGlob m.1 then
    match Pattern.parse m.1 with
    | .error e => [e]
    | .ok _ => targetErrors root (routes moduleType m.2)
  else []

theorem errors_addDestination (r : Resolution) (m : String × Json) :
    (addDestination moduleType root r m.1 m.2).errors =
      r.errors ++ memberErrors moduleType root m := by
  rw [addDestination, memberErrors]
  cases isSubpath m.1 with
  | false => simp
  | true =>
    cases isGlob m.1 with
    | false => simp
    | true => cases Pattern.parse m.1 <;> simp

theorem errors_foldl (members : List (String × Json)) (r : Resolution) :
    (members.foldl (fun r m => addDestination moduleType root r m.1 m.2) r).errors =
      r.errors ++ members.flatMap (memberErrors moduleType root) := by
  induction members generalizing r with
  | nil => simp
  | cons m rest ih =>
    rw [List.foldl_cons, ih, errors_addDestination, List.flatMap_cons, List.append_assoc]

theorem errors_ofMembers (h : ∃ m ∈ members, isSubpath m.1) :
    (ofMembers moduleType root members).errors =
      members.flatMap (memberErrors moduleType root) := by
  have hsub : members.any (fun m => isSubpath m.1) = true := List.any_eq_true.2 h
  rw [ofMembers, if_neg (by simp [hsub]), errors_foldl]
  rfl

/-- Entries with different keys make the same table in any order. -/
theorem addAll_eq_of_perm {κ : Type} [Ord κ] [Std.TransOrd κ] [Std.LawfulEqOrd κ] [DecidableEq κ]
    {entries entries' : List (κ × Entry)} (hperm : entries.Perm entries')
    (hnodup : (entries.map (·.1)).Nodup) :
    addAll .empty entries = addAll .empty entries' := by
  refine ExportsTable.addAll_ext fun k c => ?_
  rw [ExportsTable.targetAt?_addAll, ExportsTable.targetAt?_addAll]
  congr 1
  refine findSome?_eq_of_perm (p := (k = ·)) hperm hnodup ?_ ?_
  · intro x hx
    by_contra hkey
    rw [if_neg (by simpa using hkey)] at hx
    cases hx
  · exact filter_eq_of_perm (fun k' hk' => (of_decide_eq_true hk').symm) (hperm.map _)

/-- What is read off members with different keys has different keys, if the key can be told from
it. -/
theorem nodup_keys_filterMap {κ : Type} {f : String × Json → Option (κ × Entry)} (text : κ → String)
    (hf : ∀ m x, f m = some x → text x.1 = m.1) (hdistinct : HasDistinctKeys members) :
    ((members.filterMap f).map (·.1)).Nodup := by
  rw [List.Nodup, List.pairwise_map, List.pairwise_filterMap]
  refine (List.pairwise_map.1 hdistinct).imp fun {m m'} hne x hx y hy heq => hne ?_
  rw [← hf m x hx, ← hf m' y hy, heq]

theorem nodup_exactParts (hdistinct : HasDistinctKeys members) :
    ((members.filterMap (exactPart? moduleType root)).map (·.1)).Nodup := by
  refine nodup_keys_filterMap id (fun m x hx => ?_) hdistinct
  rw [exactPart?] at hx
  split at hx
  · exact congrArg (·.1) (Option.some.inj hx).symm
  · cases hx

/-- A pattern is read from one key only. -/
theorem nodup_patternParts (hdistinct : HasDistinctKeys members) :
    ((members.filterMap (patternPart? moduleType root)).map (·.1)).Nodup := by
  refine nodup_keys_filterMap Pattern.text (fun m x hx => ?_) hdistinct
  rw [patternPart?] at hx
  split at hx
  · obtain ⟨p, hp, rfl⟩ := Option.map_eq_some_iff.1 hx
    cases hparse : Pattern.parse m.1 with
    | error e =>
      rw [hparse] at hp
      cases hp
    | ok q =>
      rw [hparse] at hp
      obtain rfl : q = p := Option.some.inj hp
      exact (Pattern.parse_eq_ok_iff.1 hparse).2
  · cases hx

/-- The members of an object of subpaths in another order, and the conditions of each too. -/
def DestinationsReordered (moduleType : ModuleType) (members members' : List (String × Json)) :
    Prop :=
  MembersReordered (ValueReordered moduleType) members members'

section Destinations

variable (hkeys : KeysDistinct (.object members))
  (h : DestinationsReordered moduleType members members')
include hkeys h

/-- **Members in another order make the same table.** -/
theorem table_reordered (hsub : ∃ m ∈ members, isSubpath m.1)
    (hsub' : ∃ m ∈ members', isSubpath m.1) :
    (ofMembers moduleType root members).table = (ofMembers moduleType root members').table := by
  have hdistinct := (keysDistinct_object_iff.1 hkeys).1
  obtain ⟨middle, hperm, hsame⟩ := h.exists_middle hkeys
  have hexact : middle.filterMap (exactPart? moduleType root) =
      members'.filterMap (exactPart? moduleType root) := by
    refine filterMap_eq_of_forall₂ (hsame.imp ?_)
    rintro x y ⟨hdistinct, hkey, hvalue⟩
    rw [exactPart?, exactPart?, hkey, exactEntry_reordered hdistinct hvalue]
  have hpatterns : middle.filterMap (patternPart? moduleType root) =
      members'.filterMap (patternPart? moduleType root) := by
    refine filterMap_eq_of_forall₂ (hsame.imp ?_)
    rintro x y ⟨hdistinct, hkey, hvalue⟩
    rw [patternPart?, patternPart?, hkey, patternEntry_reordered hdistinct hvalue]
  rw [table_ofMembers hsub, table_ofMembers hsub', ← hexact, ← hpatterns,
    addAll_eq_of_perm (hperm.filterMap _) (nodup_exactParts hdistinct),
    addAll_eq_of_perm (hperm.filterMap _) (nodup_patternParts hdistinct)]

/-- Members in another order have the same errors, in another order. -/
theorem perm_memberErrors :
    (members.flatMap (memberErrors moduleType root)).Perm
      (members'.flatMap (memberErrors moduleType root)) := by
  obtain ⟨middle, hperm, hsame⟩ := h.exists_middle hkeys
  refine (hperm.flatMap_right _).trans (perm_flatMap_of_forall₂ (hsame.imp ?_))
  rintro x y ⟨hdistinct, hkey, hvalue⟩
  rw [memberErrors, memberErrors, hkey]
  split
  · split
    · exact .rfl
    · exact perm_targetErrors_reordered hdistinct hvalue
  · exact .rfl

/-- Subpaths in another order are resolved to the same table, with the same errors. -/
theorem ofMembers_reordered (hsub : ∃ m ∈ members, isSubpath m.1) :
    (ofMembers moduleType root members).table = (ofMembers moduleType root members').table ∧
      (ofMembers moduleType root members).errors.Perm
        (ofMembers moduleType root members').errors := by
  have hsub' : ∃ m ∈ members', isSubpath m.1 := by
    obtain ⟨m, hm, hmsub⟩ := hsub
    obtain ⟨m', hm', heq⟩ := List.mem_map.1 ((h.mem_keys_iff m.1).1 (List.mem_map_of_mem hm))
    exact ⟨m', hm', heq ▸ hmsub⟩
  refine ⟨table_reordered hkeys h hsub hsub', ?_⟩
  rw [errors_ofMembers hsub, errors_ofMembers hsub']
  exact perm_memberErrors hkeys h

end Destinations

/-! ### The whole object -/

/-- What a manifest says about its exports has each key once. -/
theorem keysDistinct_exports {location : Path} {text : String} {m : Manifest} {exports : Json}
    (h : Manifest.parse location text = .ok m) (hexports : m.exports = some exports) :
    KeysDistinct exports := by
  rw [Manifest.parse] at h
  cases hparse : Json.parse text with
  | error e =>
    rw [hparse] at h
    cases h
  | ok value =>
    rw [hparse] at h
    cases value with
    | object members =>
      obtain rfl : Manifest.ofMembers members = m := Except.ok.inj h
      obtain ⟨hfield, -⟩ := Option.filter_eq_some_iff.1 hexports
      exact (keysDistinct_object_iff.1 (Json.keysDistinct_of_parse hparse)).2 _
        (Json.mem_of_memberIn? hfield)
    | _ => cases h

/-- An `exports` object in another order: the subpaths and the conditions of each, or else the
conditions of the root. -/
inductive ExportsReordered (moduleType : ModuleType) (members members' : List (String × Json)) :
    Prop
  | destinations (hsub : ∃ m ∈ members, isSubpath m.1)
      (h : DestinationsReordered moduleType members members')
  | conditions (hnone : ∀ m ∈ members, ¬ isSubpath m.1)
      (h : ConditionsReordered moduleType members members')

/-- An `exports` object in another order makes the same table, and the same errors up to their
order. -/
theorem ofMembers_exportsReordered {moduleType : ModuleType} (root : Path)
    {members members' : List (String × Json)} (hkeys : KeysDistinct (.object members))
    (h : ExportsReordered moduleType members members') :
    (ofMembers moduleType root members).table = (ofMembers moduleType root members').table ∧
      (ofMembers moduleType root members).errors.Perm
        (ofMembers moduleType root members').errors := by
  cases h with
  | destinations hsub h => exact ofMembers_reordered hkeys h hsub
  | conditions hnone h =>
    have hnone' : ∀ m ∈ members', ¬ isSubpath m.1 := by
      intro m' hm'
      obtain ⟨m, hm, heq⟩ := List.mem_map.1
        ((h.reordered.mem_keys_iff m'.1).2 (List.mem_map_of_mem hm'))
      exact heq ▸ hnone m hm
    have hroot : isSubpath "." = true := by decide
    have hkeys' : KeysDistinct (.object [(".", .object members)]) :=
      .object (List.nodup_singleton _) (List.forall_mem_singleton.2 hkeys)
    rw [ofMembers_of_conditions hnone, ofMembers_of_conditions hnone']
    exact ofMembers_reordered hkeys' ⟨_, .rfl, .cons ⟨rfl, h⟩ .nil⟩
      ⟨_, List.mem_singleton_self _, hroot⟩

/-- **The order of the keys matters only for `import` and `default` in a module package.**  An
`exports` object with its subpaths, the conditions of each of them and the members of whatever is
nested there in another order, and likewise one with the conditions of the root, is resolved to the
same table, and the errors are the same up to their order.  Conditions may stand in any order in a
classic package, and in any order that keeps that of `import` and `default` in a module package. -/
theorem ofManifest_reordered (m : Manifest) (root : Path) {members members' : List (String × Json)}
    (hkeys : KeysDistinct (.object members))
    (h : ExportsReordered m.moduleType members members') :
    let resolve (exports : Json) := ofManifest { m with exports := some exports } root
    (resolve (.object members)).table = (resolve (.object members')).table ∧
      (resolve (.object members)).errors.Perm (resolve (.object members')).errors :=
  ofMembers_exportsReordered root hkeys h

/-- **The exports of a manifest that was read from a text** may be put in another order, since there
each key stands once. -/
theorem ofManifest_reordered_of_parse {location root : Path} {text : String} {m : Manifest}
    {members members' : List (String × Json)} (hparse : Manifest.parse location text = .ok m)
    (hexports : m.exports = some (.object members))
    (h : ExportsReordered m.moduleType members members') :
    let m' : Manifest := { m with exports := some (.object members') }
    (ofManifest m root).table = (ofManifest m' root).table ∧
      (ofManifest m root).errors.Perm (ofManifest m' root).errors := by
  intro m'
  have hm : m = { m with exports := some (.object members) } := by rw [← hexports]
  rw [hm]
  exact ofMembers_exportsReordered root (keysDistinct_exports hparse hexports) h

/-- Conditions of a module package, with `import` before `default`. -/
def sampleValue : Json :=
  .object [("script", .string "./b.js"),
    ("import", .object [("types", .string "./b.d.ts"), ("default", .string "./b.mjs")]),
    ("default", .string "./c.mjs")]

/-- The same conditions in another order. -/
def sampleValue' : Json :=
  .object [("import", .object [("default", .string "./b.mjs"), ("types", .string "./b.d.ts")]),
    ("default", .string "./c.mjs"), ("script", .string "./b.js")]

theorem valueReordered_sample : ValueReordered .module sampleValue sampleValue' where
  reordered :=
    have hnested : Reordered
        (.object [("types", .string "./b.d.ts"), ("default", .string "./b.mjs")])
        (.object [("default", .string "./b.mjs"), ("types", .string "./b.d.ts")]) :=
      .members (.swap ..)
    ⟨[("import", .object [("types", .string "./b.d.ts"), ("default", .string "./b.mjs")]),
        ("default", .string "./c.mjs"), ("script", .string "./b.js")],
      (List.perm_append_comm : ([_] ++ [_, _]).Perm ([_, _] ++ [_])),
      .cons ⟨rfl, hnested⟩ (.cons ⟨rfl, .refl _⟩ (.cons ⟨rfl, .refl _⟩ .nil))⟩
  kept _ := by decide

/-- Destinations that are no patterns change places, and conditions behind them. -/
theorem ofManifest_reordered_sample :
    let members := [("./*/*", .null), ("./b", sampleValue), ("./?", .null)]
    let members' := [("./?", .null), ("./*/*", .null), ("./b", sampleValue')]
    let resolve (exports : Json) :=
      ofManifest { moduleType := .module, exports := some exports } ⟨"ui"⟩
    KeysDistinct (.object members) ∧ ExportsReordered .module members members' ∧
      (resolve (.object members)).table = (resolve (.object members')).table ∧
      (resolve (.object members)).errors.Perm (resolve (.object members')).errors ∧
      (resolve (.object members)).errors ≠ (resolve (.object members')).errors ∧
      targetAt? (resolve (.object members)).table.exact "./b" .importModule =
        some (.path ⟨"ui/b.mjs"⟩) := by
  intro members members' resolve
  have hkeys : KeysDistinct (.object members) := by
    simp [members, sampleValue, keysDistinct_object_iff, HasDistinctKeys, KeysDistinct.null,
      KeysDistinct.string]
  have hreordered : ExportsReordered .module members members' :=
    .destinations ⟨_, List.mem_cons_self, by decide⟩
      ⟨[("./?", .null), ("./*/*", .null), ("./b", sampleValue)],
        (List.perm_append_comm : ([_, _] ++ [_]).Perm ([_] ++ [_, _])),
        .cons ⟨rfl, .refl _⟩ (.cons ⟨rfl, .refl _⟩ (.cons ⟨rfl, valueReordered_sample⟩ .nil))⟩
  obtain ⟨htable, herrors⟩ :=
    ofManifest_reordered { moduleType := .module } ⟨"ui"⟩ hkeys hreordered
  exact ⟨hkeys, hreordered, htable, herrors, by decide +kernel, by decide +kernel⟩

/-- In a module package `import` and `default` cannot change places. -/
example :
    let table (conditions : List (String × Json)) :=
      (ofMembers .module ⟨"ui"⟩ [(".", .object conditions)]).table
    table [("import", .string "./a.js"), ("default", .string "./b.js")] ≠
      table [("default", .string "./b.js"), ("import", .string "./a.js")] := by
  decide +kernel

end Resolution

end PackageRouting
