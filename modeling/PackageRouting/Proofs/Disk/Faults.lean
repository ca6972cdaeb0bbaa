/-
PackageRouting/Proofs/Disk/Faults.lean

Scripts on a disk of which some calls fail.

A call takes its effect, or it fails and leaves the disk as it was; a write that
fails may leave the first of its bytes (`Call.Answers`).  A script is followed
call by call, so that every disk on the way is seen (`Script.Sees`), and what it
returns comes with the calls that were made and their answers (`Script.Returns`).

What holds of all disks that are seen and of all that is returned is followed
along the script too (`Script.Ensures`), and it composes as the scripts do
(`Ensures.andThen`, `Ensures.bindExcept`).  It holds of every run, whichever calls
fail (`Ensures.sees`, `Ensures.returns`).
-/
import PackageRouting.Disk.Script

namespace PackageRouting

namespace Call

/-- The answer of a call that fails; the clock never does. -/
def refusal (e : DiskError) : (c : Call) → Option c.Answer
  | status _ => some (.error e : Except DiskError Status)
  | read _ => some (.error e : Except DiskError (List UInt8))
  | list .. => some (.error e : Except DiskError Listing)
  | makeDirectory _ | create _ | write .. | sync _ | rename .. | remove _ =>
    some (.error e : Except DiskError Unit)
  | clock => none

/-- The disks that are seen while a call is made, before it has taken its whole effect. -/
inductive Passes (d : Disk) : Call → Disk → Prop where
  | start (c : Call) : Passes d c d
  /-- The first of the bytes are written. -/
  | storing {p : Path} {bytes : List UInt8} {d' : Disk} (count : Nat) :
      d.writeBytes p (bytes.take count) = .ok d' → Passes d (write p bytes) d'

/-- What a call may answer, and the disk afterwards. -/
inductive Answers (d : Disk) : (c : Call) → c.Answer → Disk → Prop where
  | effect (c : Call) : Answers d c (c.run d).1 (c.run d).2
  | failure {c : Call} {e : DiskError} {answer : c.Answer} {d' : Disk} :
      c.refusal e = some answer → Passes d c d' → Answers d c answer d'

/-- A call that changes the disk does so, or it fails on the way. -/
inductive Changes (d : Disk) (c : Call) (effect : Except DiskError Disk) :
    Except DiskError Unit → Disk → Prop where
  | done {d' : Disk} : effect = .ok d' → Changes d c effect (.ok ()) d'
  | failed {e : DiskError} {d' : Disk} : c.Passes d d' → Changes d c effect (.error e) d'

/-- What comes of a call. -/
def Outcome (d : Disk) : (c : Call) → c.Answer → Disk → Prop
  | makeDirectory p => Changes d (makeDirectory p) (d.makeDirectory p)
  | create p => Changes d (create p) (d.writeBytes p [])
  | write p bytes => Changes d (write p bytes) (d.writeBytes p bytes)
  | rename source target => Changes d (rename source target) (d.rename source target)
  | remove p => Changes d (remove p) (d.remove p)
  | _ => fun _ d' => d' = d

variable {d d' : Disk} {c : Call} {answer : c.Answer}

theorem changes_changing (c : Call) (effect : Except DiskError Disk) :
    Changes d c effect (changing d effect).1 (changing d effect).2 := by
  cases effect with
  | ok d' => exact .done rfl
  | error e => exact .failed (.start c)

/-- **A call does nothing but this, whether it fails or not.** -/
theorem Answers.outcome (h : c.Answers d answer d') : c.Outcome d answer d' := by
  cases h with
  | effect =>
    cases c with
    | makeDirectory p => exact changes_changing _ _
    | create p => exact changes_changing _ _
    | write p bytes => exact changes_changing _ _
    | rename source target => exact changes_changing _ _
    | remove p => exact changes_changing _ _
    | _ => rfl
  | failure hrefusal hpass =>
    cases c with
    | makeDirectory p | create p | write p bytes | rename source target | remove p =>
      cases hrefusal
      exact .failed hpass
    | _ =>
      cases hpass
      rfl

end Call

/-- A call that was made, with its answer. -/
structure Event where
  call : Call
  answer : call.Answer

namespace Script

variable {α β : Type}

/-- From a disk, a script comes to a rest of it and another disk, with these calls on the way. -/
inductive Reaches (s : Script α) (d : Disk) : List Event → Script α → Disk → Prop where
  | start : Reaches s d [] s d
  | step {events : List Event} {c : Call} {next : c.Answer → Script α} {here d' : Disk}
      {answer : c.Answer} : Reaches s d events (call c next) here → c.Answers here answer d' →
      Reaches s d (events ++ [⟨c, answer⟩]) (next answer) d'

/-- A disk is seen at some moment of a run, whichever calls fail. -/
inductive Sees (s : Script α) (d : Disk) : Disk → Prop where
  | during {events : List Event} {c : Call} {next : c.Answer → Script α} {here d' : Disk} :
      Reaches s d events (call c next) here → c.Passes here d' → Sees s d d'
  | after {events : List Event} {a : α} {d' : Disk} :
      Reaches s d events (done a) d' → Sees s d d'

/-- A run returns a value after some calls, whichever of them fail. -/
def Returns (s : Script α) (d : Disk) (events : List Event) (a : α) (d' : Disk) : Prop :=
  s.Reaches d events (done a) d'

/-- Where no call fails, a script runs to its end. -/
theorem Reaches.run {s rest : Script α} {d here : Disk} {events : List Event}
    (h : s.Reaches d events rest here) :
    ∃ events', s.Returns d events' (rest.run here).1 (rest.run here).2 := by
  induction rest generalizing events here with
  | done a => exact ⟨events, h⟩
  | call c next ih => exact ih _ (h.step (.effect c))

/-- What is returned where no call fails. -/
theorem returns_run (s : Script α) (d : Disk) :
    ∃ events, s.Returns d events (s.run d).1 (s.run d).2 :=
  Reaches.start.run

/-- Whichever calls fail from here on, all disks that are seen satisfy `inv`, and what is returned
after the calls satisfies `post`. -/
inductive Ensures (inv : Disk → Prop) (post : List Event → α → Disk → Prop) :
    Script α → List Event → Disk → Prop where
  | done {events : List Event} {a : α} {d : Disk} :
      inv d → post events a d → Ensures inv post (done a) events d
  | call {events : List Event} {c : Call} {next : c.Answer → Script α} {d : Disk} :
      (∀ d', c.Passes d d' → inv d') →
      (∀ answer d', c.Answers d answer d' →
        Ensures inv post (next answer) (events ++ [⟨c, answer⟩]) d') →
      Ensures inv post (call c next) events d

/-- All calls of a script are among those that are allowed. -/
def Uses (allowed : Call → Prop) : Script α → Prop
  | done _ => True
  | call c next => allowed c ∧ ∀ answer, (next answer).Uses allowed

theorem Uses.andThen {allowed : Call → Prop} {s : Script α} {f : α → Script β}
    (h : s.Uses allowed) (hf : ∀ a, (f a).Uses allowed) : (s.andThen f).Uses allowed := by
  induction s with
  | done a => exact hf a
  | call c next ih => exact ⟨h.1, fun answer => ih answer (h.2 answer)⟩

namespace Ensures

variable {inv inv' : Disk → Prop} {post post' : List Event → α → Disk → Prop} {s : Script α}
  {events : List Event} {d d' : Disk}

/-! ### Runs -/

/-- What a script ensures, every rest of it does. -/
theorem reaches (h : s.Ensures inv post [] d) {rest : Script α}
    (hreach : s.Reaches d events rest d') : rest.Ensures inv post events d' := by
  induction hreach with
  | start => exact h
  | step _ hanswer ih =>
    cases ih with
    | call _ hanswers => exact hanswers _ _ hanswer

theorem sees (h : s.Ensures inv post [] d) (hsees : s.Sees d d') : inv d' := by
  cases hsees with
  | during hreach hpass =>
    cases h.reaches hreach with
    | call hpasses _ => exact hpasses _ hpass
  | after hreach =>
    cases h.reaches hreach with
    | done hinv _ => exact hinv

theorem returns (h : s.Ensures inv post [] d) {a : α} (hreturns : s.Returns d events a d') :
    post events a d' := by
  cases h.reaches hreturns with
  | done _ hpost => exact hpost

/-! ### Composition -/

theorem mono (h : s.Ensures inv post events d) (hinv : ∀ d, inv d → inv' d)
    (hpost : ∀ events a d, inv d → post events a d → post' events a d) :
    s.Ensures inv' post' events d := by
  induction h with
  | done hd ha => exact .done (hinv _ hd) (hpost _ _ _ hd ha)
  | call hpasses _ ih => exact .call (fun d' hpass => hinv d' (hpasses d' hpass)) ih

/-- **A script in front has to lead to what the script behind it needs.** -/
theorem andThen {f : α → Script β} {post : List Event → β → Disk → Prop}
    (h : s.Ensures inv (fun events a d => (f a).Ensures inv post events d) events d) :
    (s.andThen f).Ensures inv post events d := by
  induction h with
  | done _ hf => exact hf
  | call hpasses _ ih => exact .call hpasses ih

/-- A script that may fail is followed by another if it does not. -/
theorem bindExcept {x : ExceptT DiskError Script α} {f : α → ExceptT DiskError Script β}
    {post : List Event → Except DiskError β → Disk → Prop}
    {middle : List Event → Except DiskError α → Disk → Prop}
    (h : x.run.Ensures inv middle events d)
    (herror : ∀ events e d, middle events (.error e) d → post events (.error e) d)
    (hok : ∀ events a d, inv d → middle events (.ok a) d → (f a).run.Ensures inv post events d) :
    (x >>= f).run.Ensures inv post events d := by
  refine andThen (s := x.run) (h.mono (fun _ hd => hd) fun events result d hd hmiddle => ?_)
  cases result with
  | ok a => exact hok events a d hd hmiddle
  | error e => exact .done hd (herror events e d hmiddle)

/-- **What every allowed call keeps, a script of such calls keeps.** -/
theorem of_uses {allowed : Call → Prop} (h : s.Uses allowed)
    (hkeep : ∀ c, allowed c → ∀ d, inv d → (∀ d', c.Passes d d' → inv d') ∧
      ∀ answer d', c.Answers d answer d' → inv d')
    (hd : inv d) (hevents : ∀ event ∈ events, allowed event.call) :
    s.Ensures inv (fun events _ _ => ∀ event ∈ events, allowed event.call) events d := by
  induction s generalizing events d with
  | done a => exact .done hd hevents
  | call c next ih =>
    obtain ⟨hpasses, hanswers⟩ := hkeep c h.1 d hd
    refine .call hpasses fun answer d' hanswer =>
      ih answer (h.2 answer) (hanswers answer d' hanswer) fun event hevent => ?_
    rcases List.mem_append.1 hevent with hbefore | hlast
    · exact hevents event hbefore
    · obtain rfl := List.mem_singleton.1 hlast
      exact h.1

end Ensures

end Script

end PackageRouting
