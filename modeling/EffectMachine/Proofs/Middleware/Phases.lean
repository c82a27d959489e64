import EffectMachine.Proofs.Dispatch.Selection
import EffectMachine.Proofs.Middleware.Hosts
import EffectMachine.Proofs.Middleware.Rulings
import Mathlib.Data.Prod.Lex

/-!
# Where an observer stands

A run behind an observer is most of the time where the run without the observer is, with some more frames.  While the
observer is at work the other run is ahead: it has dispatched the operation that the observer is about to delegate, or
handed down the outcome that the observer is about to end with.

* `Observer.Leads` says how far a run behind an observer has come, where the other run is then, what that has run
  already and the other has not, and a rank that falls while the observer is at work.
* `Observer.Poised` says that two runs are where an effect can be handed on.
-/

namespace EffectMachine

/-- The top frame gets the outcome of the frame above it, or of what it performed. -/
def Run.absorbTop (run : Run) (outcome : Outcome) : Run :=
  run.withTop fun frame => frame.absorb outcome

namespace Observer

open Middleware Machine

/-- What a frame of an observer has left to do before it delegates the operation. -/
inductive Opening (observer : Observer) (operation : Effect) (frame : Frame) : Nat → Prop
  | fresh (hprogress : frame.progress = .fresh (observer.delegating operation (observer.opening operation))) :
      Opening observer operation frame ((observer.opening operation).length + 1)
  | noting (notes : List Note) (hprogress : frame.progress = .running (observer.delegating operation notes)) :
      Opening observer operation frame notes.length

/-- What a frame of an observer has left to do before it ends with an outcome. -/
inductive Closing (observer : Observer) (outcome : Outcome) (frame : Frame) : Nat → Prop
  | answered (operation : Effect) (hprogress : frame.progress = .suspended (observer.resuming operation))
      (hresult : frame.result = outcome) :
      Closing observer outcome frame ((observer.closing operation outcome).length + 1)
  | noting (notes : List Note) (hprogress : frame.progress = .running (concluding notes outcome)) :
      Closing observer outcome frame notes.length

/-- How many frames an observer may get while an effect is served that is wrapped in another one. -/
def wrappedReach (observer : Observer) (effect : Effect) : Nat :=
  effect.wrappedKinds.foldr (fun kind total => observer.kinds.count kind + total) 0

/-- How many more frames an observer may get before an effect is served that is dispatched from some position on. -/
def reach (observer : Observer) (effect : Effect) (first : Nat) : Nat :=
  observer.kinds.count effect.kind - first + observer.wrappedReach effect

/-! ## Ranks -/

/-- Measures for what an observer has left to do, the most important one first. -/
abbrev Rank := Nat ×ₗ Nat ×ₗ Nat

/-- Whether the frames below leave after the observer, how many frames there are and may come, and how many steps are left
in the frame of the observer. -/
def rank (passing extent left : Nat) : Rank :=
  toLex (passing, toLex (extent, left))

theorem rank_lt {passing extent left passing' extent' left' : Nat} :
    rank passing extent left < rank passing' extent' left' ↔
      passing < passing' ∨ passing = passing' ∧ (extent < extent' ∨ extent = extent' ∧ left < left') := by
  simp only [rank, Prod.Lex.toLex_lt_toLex]

/-- An observer that is not at work has nothing left to do. -/
theorem rank_pos {passing extent left : Nat} (hextent : 0 < extent) : rank 0 0 0 < rank passing extent left := by
  rw [rank_lt]
  omega

/-- Fewer frames are less left to do. -/
theorem rank_le {extent extent' : Nat} (hextent : extent ≤ extent') (passing : Nat) :
    rank passing extent 0 ≤ rank passing extent' 0 := by
  rcases Nat.lt_or_eq_of_le hextent with hless | rfl
  · exact le_of_lt (rank_lt.2 (.inr ⟨rfl, .inl hless⟩))
  · exact le_refl _

theorem rank_le_left (passing extent left : Nat) : rank passing extent 0 ≤ rank passing extent left := by
  rcases Nat.eq_zero_or_pos left with rfl | hleft
  · exact le_refl _
  · exact le_of_lt (rank_lt.2 (.inr ⟨rfl, .inr ⟨rfl, hleft⟩⟩))

/-! ## Phases -/

/-- How far a run behind an observer has come, and where the run without it is meanwhile.  The other run is ahead by the
services, and the rank falls with every step that it does not take part in. -/
inductive Leads (observer : Observer) (machine : Machine) : Run → Run → List Service → Rank → Prop
  /-- The observer is not at work. -/
  | rests {watched run : Run} (hcovers : observer.Covers watched.stack run.stack) (hrests : observer.Rests watched.stack)
      (halike : observer.Alike watched.host run.host) : Leads observer machine watched run [] (rank 0 0 0)
  /-- The observer is about to delegate an operation. -/
  | opens {watched run : Run} {operation : Effect} {position left : Nat}
      (hcovers : observer.Covers watched.stack run.stack) (halike : observer.Alike watched.host run.host)
      (hown : observer.Own watched.stack.top) (htag : watched.stack.top.tag = some ⟨operation.kind, position⟩)
      (hposition : position < observer.kinds.count operation.kind) (hresult : watched.stack.top.result = .ok .null)
      (hopening : observer.Opening operation watched.stack.top left) :
      Leads observer machine watched (settled (machine.dispatch operation 0 run))
        (services [] (machine.dispatchActs operation 0 run))
        (rank 0 (watched.stack.height + 1 + 2 * observer.reach operation position) left)
  /-- The observer is about to end with an outcome that the frame below already has. -/
  | closes {watched run : Run} {outcome : Outcome} {left : Nat} (hcovers : observer.Covers watched.stack run.stack)
      (halike : observer.Alike watched.host run.host) (hown : observer.Own watched.stack.top)
      (hclosing : observer.Closing outcome watched.stack.top left) :
      Leads observer machine watched (run.absorbTop outcome) [] (rank 0 watched.stack.height left)
  /-- The observer is about to end with an outcome, and the frame below, which has finished, to leave after it. -/
  | passes {watched run : Run} {outcome : Outcome} {left : Nat} (hcovers : observer.Covers watched.stack run.stack)
      (halike : observer.Alike watched.host run.host) (hown : observer.Own watched.stack.top)
      (hclosing : observer.Closing outcome watched.stack.top left) (hfinished : run.stack.top.isFinished = true) :
      Leads observer machine watched (machine.unwind (run.absorbTop outcome))
        (services [] (machine.unwindActs (run.absorbTop outcome))) (rank 1 watched.stack.height left)

/-- What two runs come to, one of them behind an observer: some phase, of a rank below a bound.  Of what is run in the
one, the other has run all but what it is behind with. -/
def Comes (observer : Observer) (machine : Machine) (watched run : Run) (watchedActs acts : List Act) (bound : Rank) : Prop :=
  ∃ ahead rank, observer.Leads machine watched run ahead rank ∧
    services observer.kinds watchedActs ++ ahead = services [] acts ∧ rank < bound

/-- Two runs are where an effect can be handed on, one of them behind an observer. -/
structure Poised (observer : Observer) (watched run : Run) : Prop where
  covers : observer.Covers watched.stack run.stack
  alike : observer.Alike watched.host run.host
  holds : owns observer.kinds watched.stack.top = true → observer.Holds watched.stack.top
  expectant : watched.stack.top.Expectant

variable {observer : Observer} {fronted machine : Machine} {watched run : Run} {watchedActs acts : List Act} {bound : Rank}

theorem Comes.mono (comes : observer.Comes machine watched run watchedActs acts bound) {larger : Rank} (hbound : bound ≤ larger) :
    observer.Comes machine watched run watchedActs acts larger := by
  obtain ⟨ahead, rank, hleads, hservices, hrank⟩ := comes
  exact ⟨ahead, rank, hleads, hservices, hrank.trans_le hbound⟩

theorem Comes.of_leads {rank : Rank} (hleads : observer.Leads machine watched run [] rank)
    (hservices : services observer.kinds watchedActs = services [] acts) (hrank : rank < bound) :
    observer.Comes machine watched run watchedActs acts bound :=
  ⟨[], rank, hleads, by rw [hservices, List.append_nil], hrank⟩

/-- Some acts of both runs come before the others. -/
theorem Comes.after (comes : observer.Comes machine watched run watchedActs acts bound) (earlierWatched earlier : List Act)
    (hservices : services observer.kinds earlierWatched = services [] earlier) :
    observer.Comes machine watched run (earlierWatched ++ watchedActs) (earlier ++ acts) bound := by
  obtain ⟨ahead, rank, hleads, hlater, hrank⟩ := comes
  refine ⟨ahead, rank, hleads, ?_, hrank⟩
  rw [services_append, services_append, List.append_assoc, hlater, hservices]

namespace Poised

section Pop

variable {parent : Frame} {rest : List Frame} {watchedHost host : Host}
variable (hcovers : observer.Covers watched.stack run.stack) (halike : observer.Alike watchedHost host)
variable (hbelow : watched.stack.below = parent :: rest)

include hcovers halike hbelow

/-- When the top frames are gone, the ones below them are where an effect can be handed on. -/
theorem of_pop (hother : owns observer.kinds watched.stack.top = false) {frame : Frame} {below : List Frame}
    (hstack : run.stack.below = frame :: below) :
    observer.Poised { stack := { watched.stack with top := parent, below := rest }, host := watchedHost }
      { stack := { run.stack with top := frame, below }, host } where
  covers := hcovers.pop hbelow hother hstack
  alike := halike
  holds := hcovers.holds parent (hbelow ▸ List.mem_cons_self)
  expectant := hcovers.expectant parent (hbelow ▸ List.mem_cons_self)

/-- So it is when a frame of the observer is gone. -/
theorem of_pop_own (howns : owns observer.kinds watched.stack.top = true) :
    observer.Poised { stack := { watched.stack with top := parent, below := rest }, host := watchedHost }
      { run with host } where
  covers := hcovers.pop_own hbelow howns
  alike := halike
  holds := hcovers.holds parent (hbelow ▸ List.mem_cons_self)
  expectant := hcovers.expectant parent (hbelow ▸ List.mem_cons_self)

end Pop

variable (hpoised : observer.Poised watched run)

include hpoised

theorem withHost {watchedHost host : Host} (halike : observer.Alike watchedHost host) :
    observer.Poised { watched with host := watchedHost } { run with host } :=
  { hpoised with alike := halike }

/-- A frame is pushed on both stacks. -/
theorem push (computation : Computation) {tag : Option HandlerTag} (hother : tag.any (ownsTag observer.kinds) = false) :
    observer.Leads machine (watched.push computation tag) (run.push computation (tag.map (plainTag observer.kinds))) []
      (rank 0 0 0) := by
  have hcovers := hpoised.covers.push (show owns observer.kinds (.ofComputation computation tag) = false from hother)
    hpoised.holds hpoised.expectant
  exact .rests hcovers ⟨hother, fun body hrunning => nomatch hrunning⟩ hpoised.alike

/-- A frame that has finished is not the observer's. -/
theorem other_of_isFinished (hfinished : watched.stack.top.isFinished = true) :
    owns observer.kinds watched.stack.top = false :=
  Bool.eq_false_iff.2 fun howns =>
    Bool.false_ne_true ((hpoised.holds howns).isFinished.symm.trans hfinished)

/-- If it has finished behind the observer, so has the top frame of the other run. -/
theorem isFinished_top (hfinished : watched.stack.top.isFinished = true) : run.stack.top.isFinished = true := by
  rw [(hpoised.covers.top_and_below (hpoised.other_of_isFinished hfinished)).1]
  exact hfinished

/-- If only the top frame of the other run has finished, the one behind the observer is the observer's. -/
theorem owns_of_going (hgoing : watched.stack.top.isFinished = false) (hfinished : run.stack.top.isFinished = true) :
    owns observer.kinds watched.stack.top = true := by
  cases howns : owns observer.kinds watched.stack.top with
  | true => rfl
  | false =>
      rw [(hpoised.covers.top_and_below howns).1] at hfinished
      exact absurd (hgoing.symm.trans hfinished) Bool.false_ne_true

/-- The top frames get an outcome, neither of which is the observer's. -/
theorem covers_absorbTop (hother : owns observer.kinds watched.stack.top = false) (outcome : Outcome) :
    observer.Covers (watched.absorbTop outcome).stack (run.absorbTop outcome).stack :=
  hpoised.covers.withTop (fun frame => frame.absorb outcome) (Frame.tag_absorb _ _) (fun _ => Frame.progress_absorb _ _)
    hother (plainFrame_absorb _ _).symm

/-- A frame of the observer gets an outcome, with which it is about to end. -/
theorem closing (howns : owns observer.kinds watched.stack.top = true) (outcome : Outcome) :
    observer.Covers (watched.absorbTop outcome).stack run.stack ∧ observer.Own (watched.absorbTop outcome).stack.top ∧
      ∃ left, observer.Closing outcome (watched.absorbTop outcome).stack.top left := by
  have hholds := hpoised.holds howns
  obtain ⟨operation, hprogress⟩ := hholds.awaits
  have habsorbed := Frame.absorb_of_going outcome hholds.isFinished
  refine ⟨hpoised.covers.withTop_own (fun frame => frame.absorb outcome) (Frame.tag_absorb _ _) howns, ?_, _,
    .answered operation ((Frame.progress_absorb _ _).trans hprogress) (congrArg Frame.result habsorbed)⟩
  show observer.Own (watched.stack.top.absorb outcome)
  rw [habsorbed]
  exact ⟨howns, hholds.defers, hholds.cancellation, hholds.answerable⟩

/-- The top frames get an outcome. -/
theorem absorb (machine : Machine) (outcome : Outcome) : ∃ place,
    observer.Leads machine (watched.absorbTop outcome) (run.absorbTop outcome) [] place ∧
      place < rank 0 (watched.stack.height + 1) 0 := by
  cases howns : owns observer.kinds watched.stack.top with
  | false =>
      have hidle (body : Body) : (watched.absorbTop outcome).stack.top.progress ≠ .running body :=
        fun hrunning => hpoised.expectant.idle body ((Frame.progress_absorb _ _).symm.trans hrunning)
      exact ⟨_, .rests (hpoised.covers_absorbTop howns outcome)
        ⟨(owns_absorb _ _).trans howns, fun body hrunning => absurd hrunning (hidle body)⟩ hpoised.alike,
        rank_pos (Nat.succ_pos _)⟩
  | true =>
      obtain ⟨hcovers, hown, left, hclosing⟩ := hpoised.closing howns outcome
      exact ⟨_, .closes hcovers hpoised.alike hown hclosing, rank_lt.2 (.inr ⟨rfl, .inl (Nat.lt_succ_self _)⟩)⟩

/-- The top frames get an outcome, and the one that is not the observer's has finished and leaves with it. -/
theorem passes (machine : Machine) (howns : owns observer.kinds watched.stack.top = true) (hfinished : run.stack.top.isFinished = true)
    (outcome : Outcome) : ∃ left, observer.Leads machine (watched.absorbTop outcome) (machine.unwind (run.absorbTop outcome))
      (services [] (machine.unwindActs (run.absorbTop outcome))) (rank 1 watched.stack.height left) := by
  obtain ⟨hcovers, hown, left, hclosing⟩ := hpoised.closing howns outcome
  exact ⟨left, .passes hcovers hpoised.alike hown hclosing hfinished⟩

/-- Nothing becomes of an effect. -/
theorem stays (machine : Machine) : ∃ place, observer.Leads machine watched run [] place ∧ place < rank 0 (watched.stack.height + 1) 0 := by
  have hsame (run : Run) (hexpectant : run.stack.top.Expectant) : run.absorbTop (.ok .null) = run := by
    show { run with stack := { run.stack with top := run.stack.top.absorb (.ok .null) } } = run
    rw [hexpectant.absorb_null]
  have habsorbed := hpoised.absorb machine (.ok .null)
  rw [hsame watched hpoised.expectant, hsame run (hpoised.covers.expectant_top hpoised.expectant)] at habsorbed
  exact habsorbed

end Poised
end Observer
end EffectMachine
