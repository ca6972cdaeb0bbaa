/-
PackageRouting/Proofs/Registry/Delivery.lean

When subscribers are called, and what they are handed.

In every state that operations lead to, the subscriptions are served exactly while
the table is closed (`Orderly`).  So completion serves all that wait, and a
subscription to a closed table is served at once (`batches_apply`).  A subscription
counts from the time it is made until its pass ends (`mem_wishes_iff`).

Main result: `deliversOnce` (each subscription is served at most once in a history,
when, and with which packages).
-/
import Mathlib.Data.List.Nodup
import PackageRouting.Proofs.Registry.Closed

namespace PackageRouting

namespace Registry

variable {r : Registry} {op : Operation} {ops : List Operation} {i j s : Nat} {id : Nat}
  {policy : Policy} {b : Batch}

/-! ### What an operation does to the subscriptions -/

/-- The subscriptions of the pass, as their numbers and policies. -/
def wishes (r : Registry) : List (Nat × Policy) := r.subscriptions.map fun s => (s.id, s.policy)

/-- The subscription that an operation makes. -/
def newWishes (r : Registry) : Operation → List (Nat × Policy)
  | .subscribe policy => [(r.nextId, policy)]
  | _ => []

/-- The subscriptions that an operation serves. -/
def due (r : Registry) : Operation → List (Nat × Policy)
  | .completeDiscovery => if r.phase = .discovered then [] else r.wishes
  | .subscribe policy => if r.phase = .discovered then [(r.nextId, policy)] else []
  | _ => []

theorem newWishes_of_isChange (h : op.isChange) : r.newWishes op = [] := by
  cases op <;> first | rfl | cases h

theorem newWishes_cases (r : Registry) (op : Operation) :
    r.newWishes op = [] ∨ ∃ policy, r.newWishes op = [(r.nextId, policy)] := by
  cases op with
  | subscribe policy => exact .inr ⟨policy, rfl⟩
  | _ => exact .inl rfl

theorem due_cases (r : Registry) (op : Operation) :
    r.due op = [] ∨ r.due op = r.wishes ∨ ∃ w, r.due op = [w] := by
  cases op with
  | completeDiscovery => by_cases h : r.phase = .discovered <;> simp [due, h]
  | subscribe policy => by_cases h : r.phase = .discovered <;> simp [due, h]
  | _ => exact .inl rfl

theorem due_of_isChange (h : op.isChange) : r.due op = [] := by
  cases op <;> first | rfl | cases h

theorem wishes_deliver : r.deliver.1.wishes = r.wishes := by
  rw [deliver_eq, wishes, List.map_map]
  rfl

theorem wishes_subscribed : (r.subscribed policy).wishes = r.wishes ++ [(r.nextId, policy)] := by
  rw [subscribed, wishes, List.map_append]
  rfl

/-- **Subscriptions are added one by one and end with the pass.** -/
theorem wishes_step (r : Registry) (op : Operation) :
    (r.step op).wishes = (if r.endsPass op then [] else r.wishes) ++ r.newWishes op := by
  rcases op.isChange_or with h | rfl | rfl | rfl | ⟨policy, rfl⟩
  · -- a change of the table leaves the subscriptions alone
    rw [endsPass_of_isChange h, newWishes_of_isChange h, List.append_nil]
    rcases (apply_of_isChange (r := r) h).2 with hstep | ⟨-, packages, hstep⟩
    · rw [hstep]
      rfl
    · rw [hstep]
      rfl
  · show (if r.phase = .discovered then [] else r.subscriptions).map _ = _
    by_cases h : r.phase = .discovered <;> simp [h, endsPass, newWishes, wishes]
  · show (deliver _).1.wishes = _
    rw [wishes_deliver]
    exact (List.append_nil _).symm
  · rfl
  · by_cases h : r.phase = .discovered
    · rw [step, apply_subscribe_of_closed h, wishes_deliver, wishes_subscribed]
      rfl
    · rw [step, apply_subscribe_of_open h, wishes_subscribed]
      rfl

theorem nextId_step (r : Registry) (op : Operation) :
    (r.step op).nextId = r.nextId + (r.newWishes op).length := by
  rcases op.isChange_or with h | rfl | rfl | rfl | ⟨policy, rfl⟩
  · rw [newWishes_of_isChange h]
    rcases (apply_of_isChange (r := r) h).2 with hstep | ⟨-, packages, hstep⟩
    · rw [hstep]
      rfl
    · rw [hstep]
      rfl
  · rfl
  · rfl
  · rfl
  · by_cases h : r.phase = .discovered
    · rw [step, apply_subscribe_of_closed h]
      rfl
    · rw [step, apply_subscribe_of_open h]
      rfl

/-- The subscriptions are numbered in order, and they are served iff the table is closed. -/
structure Orderly (r : Registry) : Prop where
  delivered : ∀ s ∈ r.subscriptions, s.delivered ↔ r.phase = .discovered
  increasing : (r.wishes.map (·.1)).Pairwise (· < ·)
  below : ∀ w ∈ r.wishes, w.1 < r.nextId

theorem orderly_empty : ({} : Registry).Orderly where
  delivered s hs := by cases hs
  increasing := .nil
  below w hw := by cases hw

/-- **An operation keeps the subscriptions in order.** -/
theorem Orderly.step (h : r.Orderly) (op : Operation) : (r.step op).Orderly where
  delivered := by
    rcases op.isChange_or with hchange | rfl | rfl | rfl | ⟨policy, rfl⟩
    · rcases (apply_of_isChange (r := r) hchange).2 with hstep | ⟨hopen, packages, hstep⟩
      · rw [hstep]
        exact h.delivered
      · rw [hstep]
        intro s hs
        have hs' : s.delivered ↔ r.phase = .discovered := h.delivered s hs
        simp [hs', hopen, reopened]
    · -- a new pass opens the table; what was served goes with the old pass
      intro s hs
      replace hs : s ∈ if r.phase = .discovered then [] else r.subscriptions := hs
      split at hs
      · cases hs
      · next hopen =>
        have hs' : s.delivered ↔ r.phase = .discovered := h.delivered s hs
        simp [hs', hopen, Registry.step, apply, beginDiscovery]
    · -- completion serves all and closes the table
      intro s hs
      have hstep : r.step .completeDiscovery =
          (deliver { r with phase := .discovered }).1 := rfl
      rw [hstep, deliver_eq] at hs ⊢
      obtain ⟨s', -, rfl⟩ := List.mem_map.1 hs
      simp
    · intro s hs
      cases hs
    · by_cases hclosed : r.phase = .discovered
      · rw [Registry.step, apply_subscribe_of_closed hclosed, deliver_eq]
        intro s hs
        obtain ⟨s', -, rfl⟩ := List.mem_map.1 hs
        simp [subscribed, hclosed]
      · rw [Registry.step, apply_subscribe_of_open hclosed]
        intro s hs
        rcases List.mem_append.1 hs with hs | hs
        · exact h.delivered s hs
        · obtain rfl := List.mem_singleton.1 hs
          simp [subscribed, hclosed]
  increasing := by
    have hkept : (if r.endsPass op then [] else r.wishes).Sublist r.wishes := by
      split
      · exact List.nil_sublist _
      · exact .refl _
    rw [wishes_step, List.map_append]
    rcases r.newWishes_cases op with hnew | ⟨policy, hnew⟩
    · rw [hnew, List.map_nil, List.append_nil]
      exact h.increasing.sublist (hkept.map _)
    · rw [hnew, List.map_singleton]
      refine List.pairwise_append.2 ⟨h.increasing.sublist (hkept.map _), by simp, ?_⟩
      -- the new number is above those before it
      rintro n hn n' hn'
      obtain ⟨w, hw, rfl⟩ := List.mem_map.1 hn
      obtain rfl := List.mem_singleton.1 hn'
      exact h.below w (hkept.subset hw)
  below w hw := by
    rw [wishes_step] at hw
    rw [nextId_step]
    rcases List.mem_append.1 hw with hw | hw
    · split at hw
      · cases hw
      · exact Nat.lt_add_right _ (h.below w hw)
    · rcases r.newWishes_cases op with hnew | ⟨policy, hnew⟩
      · rw [hnew] at hw
        cases hw
      · rw [hnew] at hw ⊢
        obtain rfl := List.mem_singleton.1 hw
        exact Nat.lt_succ_self _

/-- While the table is closed, no subscription waits. -/
theorem Orderly.waiting_of_closed (h : r.Orderly) (hclosed : r.phase = .discovered) :
    (r.subscriptions.filter fun s => !s.delivered) = [] := by
  simpa [List.filter_eq_nil_iff, hclosed] using h.delivered

/-- While it is open, all of them do. -/
theorem Orderly.waiting_of_open (h : r.Orderly) (hopen : r.phase ≠ .discovered) :
    (r.subscriptions.filter fun s => !s.delivered) = r.subscriptions := by
  simpa [List.filter_eq_self, hopen] using h.delivered

/-- **Completion serves all subscriptions that wait, and a closed table a new one at once.** -/
theorem batches_apply (h : r.Orderly) (op : Operation) :
    (r.apply op).batches = (r.due op).map fun w => ⟨w.1, r.eligible w.2⟩ := by
  rcases op.isChange_or with hchange | rfl | rfl | rfl | ⟨policy, rfl⟩
  · rw [(apply_of_isChange hchange).1, due_of_isChange hchange]
    rfl
  · rfl
  · have hbatches : (r.apply .completeDiscovery).batches =
        (r.subscriptions.filter fun s => !s.delivered).map fun s => ⟨s.id, r.eligible s.policy⟩ :=
      congrArg Prod.snd (deliver_eq _)
    by_cases hclosed : r.phase = .discovered
    · -- a second completion finds everyone served
      rw [hbatches, h.waiting_of_closed hclosed, due, if_pos hclosed]
      rfl
    · rw [hbatches, h.waiting_of_open hclosed, due, if_neg hclosed, wishes, List.map_map]
      rfl
  · rfl
  · by_cases hclosed : r.phase = .discovered
    · have hnew : ((r.subscribed policy).subscriptions.filter fun s => !s.delivered) =
          [⟨r.nextId, policy, false⟩] := by
        rw [subscribed, List.filter_append, h.waiting_of_closed hclosed]
        rfl
      rw [apply_subscribe_of_closed hclosed, due, if_pos hclosed, deliver_eq, hnew]
      rfl
    · rw [apply_subscribe_of_open hclosed, due, if_neg hclosed]
      rfl

/-! ### Histories -/

/-- The registry before the `i`-th operation of a history, which begins with a new one. -/
def before (ops : List Operation) (i : Nat) : Registry := History.stateAt step {} ops i

/-- The batches that the `i`-th operation delivers. -/
def batchesAt (ops : List Operation) (i : Nat) : List Batch :=
  match ops[i]? with
  | some op => ((before ops i).apply op).batches
  | none => []

/-- The `s`-th operation makes a subscription, and is told its number. -/
def Subscribes (ops : List Operation) (s id : Nat) (policy : Policy) : Prop :=
  ops[s]? = some (.subscribe policy) ∧
    ((before ops s).apply (.subscribe policy)).answer = .ok (.subscribed id)

/-- The `i`-th operation ends a pass. -/
def EndsPassAt (ops : List Operation) (i : Nat) : Prop :=
  ∃ op, ops[i]? = some op ∧ (before ops i).endsPass op

theorem before_succ (h : ops[i]? = some op) : before ops (i + 1) = (before ops i).step op :=
  History.stateAt_succ h

theorem orderly_before (ops : List Operation) (i : Nat) : (before ops i).Orderly :=
  History.stateAt_of_step orderly_empty (fun _ h op _ => h.step op) i

/-- The number of a new subscription is the next one. -/
theorem subscribes_iff : Subscribes ops s id policy ↔
    ops[s]? = some (.subscribe policy) ∧ id = (before ops s).nextId := by
  apply and_congr_right
  intro _
  by_cases h : (before ops s).phase = .discovered
  · simp [apply_subscribe_of_closed h, eq_comm]
  · simp [apply_subscribe_of_open h, eq_comm]

theorem mem_newWishes_iff (h : ops[i]? = some op) :
    (id, policy) ∈ (before ops i).newWishes op ↔ Subscribes ops i id policy := by
  rw [subscribes_iff, h]
  cases op with
  | subscribe policy' => simp [newWishes, and_comm, eq_comm]
  | _ => simp [newWishes]

/-- A later subscription has a greater number. -/
theorem Subscribes.lt {s' id' : Nat} {policy' : Policy} (h : Subscribes ops s id policy)
    (h' : Subscribes ops s' id' policy') (hlt : s < s') : id < id' := by
  obtain ⟨hop, rfl⟩ := subscribes_iff.1 h
  obtain ⟨-, rfl⟩ := subscribes_iff.1 h'
  refine History.stateAt_between (P := fun r : Registry => (before ops s).nextId < r.nextId)
    (Nat.succ_le_of_lt hlt) ?_ ?_
  · show _ < (before ops (s + 1)).nextId
    rw [before_succ hop, nextId_step]
    exact Nat.lt_succ_self _
  · intro k op _ _ _ hk
    rw [nextId_step]
    exact Nat.lt_add_right _ hk

/-- The numbers tell the subscriptions apart. -/
theorem Subscribes.unique {s' : Nat} {policy' : Policy} (h : Subscribes ops s id policy)
    (h' : Subscribes ops s' id policy') : s = s' := by
  rcases Nat.lt_trichotomy s s' with hlt | heq | hlt
  · exact absurd (h.lt h' hlt) (Nat.lt_irrefl id)
  · exact heq
  · exact absurd (h'.lt h hlt) (Nat.lt_irrefl id)

theorem Subscribes.policy_eq {policy' : Policy} (h : Subscribes ops s id policy)
    (h' : Subscribes ops s id policy') : policy = policy' := by
  have hop := h.1.symm.trans h'.1
  simpa using hop

theorem endsPassAt_iff_or : EndsPassAt ops i ↔ ops[i]? = some .beforeSave ∨
    ops[i]? = some .beginDiscovery ∧ (before ops i).phase = .discovered := by
  constructor
  · rintro ⟨op, hop, hends⟩
    cases op with
    | beforeSave => exact .inl hop
    | beginDiscovery => exact .inr ⟨hop, by simpa [endsPass] using hends⟩
    | _ => cases hends
  · rintro (hop | ⟨hop, hclosed⟩)
    · exact ⟨_, hop, rfl⟩
    · exact ⟨_, hop, by simpa [endsPass] using hclosed⟩

theorem endsPassAt_iff (h : ops[i]? = some op) :
    EndsPassAt ops i ↔ (before ops i).endsPass op := by
  simp [EndsPassAt, h]

/-- **A subscription counts from the time it is made until its pass ends.** -/
theorem mem_wishes_iff : (id, policy) ∈ (before ops i).wishes ↔
    History.Since (Subscribes ops · id policy) (¬ EndsPassAt ops ·) i := by
  refine History.iff_since (Q := fun i => (id, policy) ∈ (before ops i).wishes) List.not_mem_nil
    (fun i => ?_) i
  cases hop : ops[i]? with
  | none =>
    have hstate : before ops (i + 1) = before ops i := History.stateAt_succ_of_none hop
    simp [hstate, Subscribes, EndsPassAt, hop]
  | some op =>
    rw [before_succ hop, wishes_step, List.mem_append, mem_newWishes_iff hop, endsPassAt_iff hop]
    by_cases hends : (before ops i).endsPass op <;> simp [hends, or_comm]

/-- A closed table stays closed while no pass ends, and does not change. -/
theorem closed_between (hclosed : (before ops i).phase = .discovered) (hij : i ≤ j)
    (hends : ∀ k, i ≤ k → k < j → ¬ EndsPassAt ops k) :
    (before ops j).phase = .discovered ∧ (before ops j).packages = (before ops i).packages := by
  refine History.stateAt_between (P := fun r : Registry =>
    r.phase = .discovered ∧ r.packages = (before ops i).packages) hij ?_ ?_
  · exact ⟨hclosed, rfl⟩
  · rintro k op hik hkj hop ⟨hphase, hpackages⟩
    have hkept : (before ops k).endsPass op = false := by
      simpa [endsPassAt_iff hop] using hends k hik hkj
    exact ⟨phase_step_eq_discovered_iff.2 (.inr ⟨hphase, hkept⟩),
      (packages_step_of_closed hphase op).trans hpackages⟩

/-- Completion closes the table, until the pass ends. -/
theorem closed_of_completed (hcomplete : ops[i]? = some .completeDiscovery) (hij : i < j)
    (hends : ∀ k, i < k → k < j → ¬ EndsPassAt ops k) :
    (before ops j).phase = .discovered ∧ (before ops j).packages = (before ops i).packages := by
  have hsucc : before ops (i + 1) = (before ops i).step .completeDiscovery := before_succ hcomplete
  have hphase : (before ops (i + 1)).phase = .discovered := by
    rw [hsucc]
    rfl
  obtain ⟨hclosed, hpackages⟩ := closed_between hphase hij hends
  refine ⟨hclosed, hpackages.trans ?_⟩
  rw [hsucc]
  rfl

/-- An open table stays open until completion. -/
theorem open_between (hopen : (before ops i).phase ≠ .discovered) (hij : i ≤ j)
    (hcomplete : ∀ k, i ≤ k → k < j → ops[k]? ≠ some .completeDiscovery) :
    (before ops j).phase ≠ .discovered := by
  refine History.stateAt_between (P := fun r : Registry => r.phase ≠ .discovered) hij hopen ?_
  rintro k op hik hkj hop hphase hclosed
  rcases phase_step_eq_discovered_iff.1 hclosed with rfl | ⟨hclosed, -⟩
  · exact hcomplete k hik hkj hop
  · exact hphase hclosed

/-! ### Delivery -/

/-- The subscription that the `s`-th operation makes is served by the `i`-th. -/
structure ServedAt (ops : List Operation) (s i : Nat) : Prop where
  made : s ≤ i
  /-- It is made in the same pass. -/
  pass : ∀ k, s < k → k < i → ¬ EndsPassAt ops k
  /-- It is made when the table is closed, or waits for completion. -/
  moment : s = i ∧ (before ops i).phase = .discovered ∨
    s < i ∧ ops[i]? = some .completeDiscovery ∧ (before ops i).phase ≠ .discovered

/-- A subscription to a closed table is served when it is made. -/
theorem ServedAt.of_closed (h : (before ops s).phase = .discovered) : ServedAt ops s s where
  made := Nat.le_refl s
  pass _ hsk hks := absurd hks (Nat.lt_asymm hsk)
  moment := .inl ⟨rfl, h⟩

theorem mem_due_iff : (id, policy) ∈ r.due op ↔
    op = .completeDiscovery ∧ r.phase ≠ .discovered ∧ (id, policy) ∈ r.wishes ∨
      r.phase = .discovered ∧ (id, policy) ∈ r.newWishes op := by
  cases op with
  | completeDiscovery => by_cases h : r.phase = .discovered <;> simp [due, newWishes, h]
  | subscribe policy' => by_cases h : r.phase = .discovered <;> simp [due, newWishes, h]
  | _ => simp [due, newWishes]

/-- **The subscriptions that are due are those that are served.** -/
theorem mem_due_before_iff (hop : ops[i]? = some op) : (id, policy) ∈ (before ops i).due op ↔
    ∃ s, Subscribes ops s id policy ∧ ServedAt ops s i := by
  rw [mem_due_iff, mem_newWishes_iff hop, mem_wishes_iff]
  constructor
  · rintro (⟨rfl, hopen, s, hsi, hsubscribes, hpass⟩ | ⟨hclosed, hsubscribes⟩)
    · exact ⟨s, hsubscribes, Nat.le_of_lt hsi, hpass, .inr ⟨hsi, hop, hopen⟩⟩
    · exact ⟨i, hsubscribes, .of_closed hclosed⟩
  · rintro ⟨s, hsubscribes, hserved⟩
    rcases hserved.moment with ⟨rfl, hclosed⟩ | ⟨hsi, hcomplete, hopen⟩
    · exact .inr ⟨hclosed, hsubscribes⟩
    · obtain rfl : op = .completeDiscovery := Option.some.inj (hop.symm.trans hcomplete)
      exact .inl ⟨rfl, hopen, s, hsi, hsubscribes, hserved.pass⟩

theorem batchesAt_eq (hop : ops[i]? = some op) : batchesAt ops i =
    ((before ops i).due op).map fun w => ⟨w.1, (before ops i).eligible w.2⟩ := by
  rw [batchesAt, hop]
  exact batches_apply (orderly_before ops i) op

/-- **A batch is for a subscription that is served, and holds what its policy admits.** -/
theorem mem_batchesAt_iff : b ∈ batchesAt ops i ↔ ∃ s policy,
    Subscribes ops s b.subscription policy ∧ ServedAt ops s i ∧
      b.packages = (before ops i).eligible policy := by
  cases hop : ops[i]? with
  | none =>
    rw [batchesAt, hop]
    constructor
    · intro h
      cases h
    · rintro ⟨s, policy, hsubscribes, hserved, -⟩
      rcases hserved.moment with ⟨rfl, -⟩ | ⟨-, hcomplete, -⟩
      · rw [hsubscribes.1] at hop
        cases hop
      · rw [hcomplete] at hop
        cases hop
  | some op =>
    rw [batchesAt_eq hop, List.mem_map]
    constructor
    · rintro ⟨⟨id, policy⟩, hdue, rfl⟩
      obtain ⟨s, hsubscribes, hserved⟩ := (mem_due_before_iff hop).1 hdue
      exact ⟨s, policy, hsubscribes, hserved, rfl⟩
    · rintro ⟨s, policy, hsubscribes, hserved, hpackages⟩
      refine ⟨(b.subscription, policy), (mem_due_before_iff hop).2 ⟨s, hsubscribes, hserved⟩, ?_⟩
      rw [← hpackages]

section OfSubscribes

variable (hs : Subscribes ops s id policy)

include hs

theorem Subscribes.not_endsPassAt : ¬ EndsPassAt ops s := by
  rw [endsPassAt_iff hs.1]
  exact Bool.false_ne_true

/-- A subscription to a closed table is served at no other time. -/
theorem Subscribes.servedAt_iff_of_closed (hclosed : (before ops s).phase = .discovered) :
    ServedAt ops s i ↔ i = s := by
  constructor
  · intro h
    rcases h.moment with ⟨rfl, -⟩ | ⟨hsi, -, hopen⟩
    · rfl
    · refine absurd (closed_between hclosed h.made fun k hsk => ?_).1 hopen
      rcases Nat.eq_or_lt_of_le hsk with rfl | hsk
      · exact fun _ => hs.not_endsPassAt
      · exact h.pass k hsk
  · rintro rfl
    exact .of_closed hclosed

/-- **A subscription to an open table is served by the next completion**, if no save comes before
it. -/
theorem Subscribes.servedAt_iff_of_open (hopen : (before ops s).phase ≠ .discovered) :
    ServedAt ops s i ↔ s < i ∧ ops[i]? = some .completeDiscovery ∧ ∀ k, s < k → k < i →
      ops[k]? ≠ some .completeDiscovery ∧ ops[k]? ≠ some .beforeSave := by
  constructor
  · intro h
    rcases h.moment with ⟨rfl, hclosed⟩ | ⟨hsi, hcomplete, hopen'⟩
    · exact absurd hclosed hopen
    · refine ⟨hsi, hcomplete, fun k hsk hki => ⟨fun hk => hopen' ?_, fun hk => ?_⟩⟩
      · exact (closed_of_completed hk hki fun l hkl => h.pass l (Nat.lt_trans hsk hkl)).1
      · exact h.pass k hsk hki (endsPassAt_iff_or.2 (.inl hk))
  · rintro ⟨hsi, hcomplete, hnone⟩
    -- without a completion the table stays open, so that only a save would end the pass
    have hstays : ∀ j, s ≤ j → j ≤ i → (before ops j).phase ≠ .discovered := by
      intro j hsj hji
      refine open_between hopen hsj fun k hsk hkj => ?_
      rcases Nat.eq_or_lt_of_le hsk with rfl | hsk
      · rw [hs.1]
        simp
      · exact (hnone k hsk (Nat.lt_of_lt_of_le hkj hji)).1
    have hsi' : s ≤ i := Nat.le_of_lt hsi
    refine ⟨hsi', fun k hsk hki hends => ?_, .inr ⟨hsi, hcomplete, hstays i hsi' (Nat.le_refl i)⟩⟩
    rcases endsPassAt_iff_or.1 hends with hsave | ⟨-, hclosed⟩
    · exact (hnone k hsk hki).2 hsave
    · exact hstays k (Nat.le_of_lt hsk) (Nat.le_of_lt hki) hclosed

/-- A subscription is served at one time. -/
theorem Subscribes.servedAt_unique (h : ServedAt ops s i) (h' : ServedAt ops s j) : i = j := by
  by_cases hclosed : (before ops s).phase = .discovered
  · rw [hs.servedAt_iff_of_closed hclosed] at h h'
    rw [h, h']
  · rw [hs.servedAt_iff_of_open hclosed] at h h'
    obtain ⟨hsi, hi, hnone⟩ := h
    obtain ⟨hsj, hj, hnone'⟩ := h'
    rcases Nat.lt_trichotomy i j with hlt | heq | hlt
    · exact absurd hi (hnone' i hsi hlt).1
    · exact heq
    · exact absurd hj (hnone j hsj hlt).1

theorem Subscribes.mem_batchesAt_iff {packages : List Package} :
    ⟨id, packages⟩ ∈ batchesAt ops i ↔
      ServedAt ops s i ∧ packages = (before ops i).eligible policy := by
  rw [Registry.mem_batchesAt_iff]
  constructor
  · rintro ⟨s', policy', hs', hserved, hpackages⟩
    obtain rfl : s = s' := hs.unique hs'
    obtain rfl : policy = policy' := hs.policy_eq hs'
    exact ⟨hserved, hpackages⟩
  · rintro ⟨hserved, hpackages⟩
    exact ⟨s, policy, hs, hserved, hpackages⟩

end OfSubscribes

/-- All batches of a history, in the order in which they are delivered. -/
def delivered (ops : List Operation) : List Batch :=
  (List.range ops.length).flatMap (batchesAt ops)

/-- An operation serves a subscription once. -/
theorem nodup_batchesAt (ops : List Operation) (i : Nat) :
    ((batchesAt ops i).map (·.subscription)).Nodup := by
  cases hop : ops[i]? with
  | none =>
    rw [batchesAt, hop]
    exact .nil
  | some op =>
    -- the batches are for subscriptions in order, and their numbers increase
    have hincreasing := (orderly_before ops i).increasing
    rw [batchesAt_eq hop, List.map_map]
    refine List.Pairwise.imp Nat.ne_of_lt ?_
    rcases (before ops i).due_cases op with hdue | hdue | ⟨w, hdue⟩
    · simp [hdue]
    · rwa [hdue]
    · simp [hdue]

/-- **No subscription is handed two batches.** -/
theorem nodup_delivered (ops : List Operation) : ((delivered ops).map (·.subscription)).Nodup := by
  rw [delivered, List.map_flatMap, List.nodup_flatMap]
  refine ⟨fun i _ => nodup_batchesAt ops i, List.pairwise_lt_range.imp ?_⟩
  rintro i j hij id hi hj
  -- a number in both would belong to one subscription that is served twice
  obtain ⟨b, hb, rfl⟩ := List.mem_map.1 hi
  obtain ⟨b', hb', heq⟩ := List.mem_map.1 hj
  obtain ⟨s, policy, hs, hserved, -⟩ := mem_batchesAt_iff.1 hb
  obtain ⟨s', policy', hs', hserved', -⟩ := mem_batchesAt_iff.1 hb'
  rw [heq] at hs'
  obtain rfl : s = s' := hs.unique hs'
  exact Nat.ne_of_lt hij (hs.servedAt_unique hserved hserved')

theorem eligible_congr {r' : Registry} (h : r.packages = r'.packages) (policy : Policy) :
    r.eligible policy = r'.eligible policy := by
  rw [eligible, eligible, toList, toList, h]

/-- From a completion until its pass ends, a policy admits the same packages. -/
theorem eligible_of_completed (hcomplete : ops[i]? = some .completeDiscovery) (hij : i ≤ j)
    (hends : ∀ k, i < k → k < j → ¬ EndsPassAt ops k) (policy : Policy) :
    (before ops j).eligible policy = (before ops i).eligible policy := by
  rcases Nat.eq_or_lt_of_le hij with rfl | hij
  · rfl
  · exact eligible_congr (closed_of_completed hcomplete hij hends).2 policy

/-- What a history of a registry promises its subscribers. -/
structure DeliversOnce (ops : List Operation) : Prop where
  /-- The numbers tell the subscriptions apart. -/
  numbered : ∀ s s' id policy policy', Subscribes ops s id policy → Subscribes ops s' id policy' →
    s = s'
  /-- No subscription is handed two batches. -/
  once : ((delivered ops).map (·.subscription)).Nodup
  /-- A batch is for a subscription made before, and holds what its policy admits at that time. -/
  content : ∀ i, ∀ b ∈ batchesAt ops i, ∃ s ≤ i, ∃ policy, Subscribes ops s b.subscription policy ∧
    b.packages = (before ops i).admitted policy
  /-- This is also what any other reader with the policy is handed at that time. -/
  eligible : ∀ i policy, (before ops i).eligible policy = (before ops i).admitted policy
  /-- The packages stand in the order of their places. -/
  ordered : ∀ i, ((before ops i).toList.map (·.1)).Pairwise (compare · · = .lt)
  /-- A subscription to a closed table is served when it is made, and at no other time. -/
  atOnce : ∀ s id policy, Subscribes ops s id policy → (before ops s).phase = .discovered →
    ∀ i packages, ⟨id, packages⟩ ∈ batchesAt ops i ↔
      i = s ∧ packages = (before ops i).admitted policy
  /-- Another one is served at the next completion, if no save comes before it, and at no other
  time. -/
  atCompletion : ∀ s id policy, Subscribes ops s id policy → (before ops s).phase ≠ .discovered →
    ∀ i packages, ⟨id, packages⟩ ∈ batchesAt ops i ↔
      (s < i ∧ ops[i]? = some .completeDiscovery ∧ ∀ k, s < k → k < i →
        ops[k]? ≠ some .completeDiscovery ∧ ops[k]? ≠ some .beforeSave) ∧
      packages = (before ops i).admitted policy
  /-- After a save, and after a new pass that was begun without one, the subscriptions made before
  are not served. -/
  ended : ∀ s id policy k, Subscribes ops s id policy → s < k →
    (ops[k]? = some .beforeSave ∨
      ops[k]? = some .beginDiscovery ∧ (before ops k).phase = .discovered) →
    ∀ i packages, k ≤ i → ⟨id, packages⟩ ∉ batchesAt ops i
  /-- From a completion on, until then, equal policies get equal batches. -/
  together : ∀ c i j, ops[c]? = some .completeDiscovery → c ≤ i → c ≤ j →
    (∀ k, c < k → k < i ∨ k < j → ¬ (ops[k]? = some .beforeSave ∨
      ops[k]? = some .beginDiscovery ∧ (before ops k).phase = .discovered)) →
    ∀ s s' policy, ∀ b ∈ batchesAt ops i, ∀ b' ∈ batchesAt ops j,
      Subscribes ops s b.subscription policy → Subscribes ops s' b'.subscription policy →
        b.packages = b'.packages

/-- **Every subscription is served at most once**: when it is made if the table is closed, and
otherwise at the next completion of its pass. -/
theorem deliversOnce (ops : List Operation) : DeliversOnce ops where
  numbered s s' id policy policy' h h' := h.unique h'
  once := nodup_delivered ops
  content i b hb := by
    obtain ⟨s, policy, hs, hserved, hpackages⟩ := mem_batchesAt_iff.1 hb
    exact ⟨s, hserved.made, policy, hs, hpackages.trans (eligible_eq _ policy)⟩
  eligible i policy := eligible_eq _ policy
  ordered i := pairwise_toList _
  atOnce s id policy hs hclosed i packages := by
    rw [hs.mem_batchesAt_iff, hs.servedAt_iff_of_closed hclosed, eligible_eq]
  atCompletion s id policy hs hopen i packages := by
    rw [hs.mem_batchesAt_iff, hs.servedAt_iff_of_open hopen, eligible_eq]
  ended s id policy k hs hsk hends i packages hki hmem := by
    have hserved : ServedAt ops s i := (hs.mem_batchesAt_iff.1 hmem).1
    rcases Nat.eq_or_lt_of_le hki with rfl | hki
    · rcases hserved.moment with ⟨rfl, -⟩ | ⟨-, hcomplete, -⟩
      · exact Nat.lt_irrefl s hsk
      · simp [hcomplete] at hends
    · exact hserved.pass k hsk hki (endsPassAt_iff_or.2 hends)
  together c i j hcomplete hci hcj hpass s s' policy b hb b' hb' hs hs' := by
    have hends : ∀ k, c < k → k < i ∨ k < j → ¬ EndsPassAt ops k := fun k hck hk hends =>
      hpass k hck hk (endsPassAt_iff_or.1 hends)
    calc b.packages
        = (before ops i).eligible policy := (hs.mem_batchesAt_iff.1 hb).2
      _ = (before ops c).eligible policy :=
          eligible_of_completed hcomplete hci (fun k hck hki => hends k hck (.inl hki)) policy
      _ = (before ops j).eligible policy :=
        (eligible_of_completed hcomplete hcj (fun k hck hkj => hends k hck (.inr hkj)) policy).symm
      _ = b'.packages := (hs'.mem_batchesAt_iff.1 hb').2.symm

/-- Three packages, a private one and one behind an excluded name among them. -/
def guardedTable : List Operation :=
  [.register ⟨"ui/package.json"⟩ ⟨some "ui", false, .classic, {}, ⟨"ui"⟩⟩ none,
    .register ⟨"dev/package.json"⟩ ⟨some "dev", true, .classic, {}, ⟨"dev"⟩⟩ none,
    .register ⟨"x/package.json"⟩ ⟨some "x-ui", false, .classic, {}, ⟨"x"⟩⟩ none]

/-- Two subscribers, of which the second one comes late and sees private packages too. -/
def guardedHistory : List Operation :=
  .subscribe (.ofTexts false ["x-*"]) :: guardedTable ++
    [.completeDiscovery, .subscribe (.ofTexts true ["x-*"]), .completeDiscovery]

/-- Each is served once, with the names that its policy admits. -/
theorem deliversOnce_guardedHistory :
    DeliversOnce guardedHistory ∧
      (delivered guardedHistory).map (fun b => (b.subscription, b.packages.map (·.name))) =
        [(0, [some "ui"]), (1, [some "dev", some "ui"])] :=
  ⟨deliversOnce guardedHistory, by decide +kernel⟩

end Registry

end PackageRouting
