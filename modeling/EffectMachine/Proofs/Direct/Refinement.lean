import EffectMachine.Proofs.Acts.Rules
import EffectMachine.Proofs.Direct.Simulation

/-!
# The machine refines direct evaluation

A stack does what direct evaluation says.  The proof goes by induction on the fuel of the evaluation; what
is said about a body, an effect, a computation and what was deferred in it is one invariant, `Direct.Simulated`.

* `Direct.answered`, `Direct.rejected` and `Direct.recovered` are the effects that push no frame.
* `Direct.handed_down` takes a frame off that has nothing left to run: its outcome goes to the frame of its
  performer, which goes on, or goes on unwinding.
* `Direct.Simulated.body_succ` to `Direct.Simulated.unwind_succ` take one step of the evaluation each; servicing an effect
  has a lemma for each kind of effect, from `Direct.Simulated.serves_defer` on.
* `Direct.settles_of_evaluate` is the main statement: whenever evaluation ends with an outcome, a stack settles with
  exactly that outcome, on exactly the host that evaluation ends with.
-/

namespace EffectMachine

namespace Kind

/-- The kinds of the core operations. -/
def cores : List String :=
  [call, execute, fork, start, defer, recover, terminal, generator, next]

end Kind

/-- Plugins service only operations of their own. -/
def Registry.LeavesCore (registry : Registry) : Prop :=
  ∀ entry ∈ registry.handlers, entry.1 ∉ Kind.cores

namespace Registry

variable {registry : Registry}

/-- No handler takes a core operation. -/
theorem LeavesCore.handlersOf (hcore : registry.LeavesCore) {kind : String} (hkind : kind ∈ Kind.cores) :
    registry.handlersOf kind = [] := by
  unfold Registry.handlersOf
  rw [List.map_eq_nil_iff, List.filter_eq_nil_iff]
  intro entry hentry hsame
  exact hcore entry hentry (of_decide_eq_true hsame ▸ hkind)

/-- No handler is found for a core operation. -/
theorem LeavesCore.select (hcore : registry.LeavesCore) {operation : Effect}
    (hkind : operation.kind ∈ Kind.cores) (context : Context) (first : Nat) :
    registry.select operation context first = .done none := by
  rw [Registry.select, hcore.handlersOf hkind, List.drop_nil]
  rfl

/-- Looking for a handler of a core operation changes nothing. -/
theorem LeavesCore.run_select (hcore : registry.LeavesCore) {e : Effect}
    (hkind : e.kind ∈ Kind.cores) (context : Context) (first : Nat) (host : Host) :
    host.run (registry.select e.operation context first) = (none, host) := by
  rw [hcore.select (e.kind_operation.symm ▸ hkind)]
  rfl

/-- The core rule of a core operation applies to it. -/
theorem LeavesCore.dispatch {machine : Machine} (hcore : machine.registry.LeavesCore) {effect : Effect}
    (hkind : effect.kind ∈ Kind.cores) (first : Nat) (run : Run) :
    machine.dispatch effect first run = machine.core effect run := by
  rw [Machine.dispatch_of_select (hcore.run_select hkind run.stack.context first run.host)]
  rfl

end Registry

/-- A call runs the body that the library has for it, under the name of the function unless it has one of its own. -/
theorem Machine.invoke_eq (machine : Machine) (function : Function) (args : List Value) :
    machine.invoke function args =
      ⟨some ((machine.library.body function args).name.getD function.name), (machine.library.body function args).body⟩ := by
  unfold invoke
  generalize machine.library.body function args = computation
  obtain ⟨name, body⟩ := computation
  cases name <;> rfl

namespace Direct

section

variable {setting : Setting} {post : Post} {site : Site} {loc : Local} {progress : Progress}

/-- An outcome changes nothing that is local to a computation which has not ended. -/
theorem absorb_of_none (hended : loc.ended = none) (outcome : Outcome) : loc.absorb outcome = loc := by
  unfold Local.absorb
  rw [hended]
  cases outcome <;> rfl

/-- A computation that has not ended goes on with the outcome of its effect. -/
theorem received_of_none (hended : loc.ended = none) (outcome : Outcome) :
    post.received setting progress outcome loc = post.moment setting loc progress outcome := by
  rw [Post.received, absorb_of_none hended, hended]

/-- An effect that is answered at once. -/
theorem answered (hbelow : loc.ended.isSome = true → post.below ≠ []) :
    Reaches setting { run := post.performing setting progress loc, turns := loc.turns }
      (post.received setting progress (.ok .null) loc) := by
  have hsame : loc.absorb (.ok .null) = loc := rfl
  rw [Post.performing, Post.received, hsame]
  cases hended : loc.ended with
  | none => exact .refl _
  | some result =>
      exact .single (Post.goes_moment setting _ (hbelow (by rw [hended]; rfl)) _ _) (Post.next_finished result)

/-- An effect that is rejected. -/
theorem rejected (loc : Local) (holds : post.Holds site loc.around) (error : Error)
    (hprogress : progress ≠ .finished) (hbelow : loc.ended.isSome = true → post.below ≠ []) :
    Reaches setting
      { run := Machine.settled { run := post.performing setting progress loc, failure := some error }
        turns := loc.turns }
      (post.received setting progress (.error error) (loc.emit (.effectFailed error site.labels))) := by
  have hlabels : (post.performing setting progress loc).stack.labels = site.labels := by
    obtain ⟨stage, result, hrun⟩ := Post.performing_eq setting progress post loc
    rw [hrun, holds.labels_run]
  rw [Machine.settled, hlabels]
  obtain ⟨host, turns, defers, answerable, ended, around⟩ := loc
  cases ended with
  | none =>
      unfold Run.failTop
      split
      · rename_i hfinished _
        cases (isFinished_of_ne hprogress).symm.trans hfinished
      · exact .refl _
  | some result =>
      cases result with
      | ok value => exact .single (Post.goes_moment setting _ (hbelow rfl) .finished _) rfl
      | error existing => exact .single (Post.goes_moment setting _ (hbelow rfl) .finished _) rfl

/-- A computation that recovers. -/
theorem recovered (holds : post.Holds site loc.around) (hended : loc.ended = none) :
    { run := (post.performing setting progress loc).recover, turns := loc.turns : Moment } =
      post.received setting progress loc.recover.1 loc.recover.2 := by
  obtain ⟨name, tag, below⟩ := post
  obtain ⟨host, turns, defers, answerable, ended, around⟩ := loc
  cases hended
  have haround := holds.around
  cases below with
  | nil =>
      cases around with
      | none => rfl
      | some result => cases haround
  | cons frame rest =>
      have hfinished : frame.isFinished = around.isSome := haround.symm
      cases around with
      | none =>
          have hopen : frame.isFinished = false := hfinished
          simp only [Run.recover, Post.performing, Post.run, plug_none, hopen]
          rfl
      | some result =>
          have hclosed : ({ frame with result } : Frame).isFinished = true := hfinished
          simp only [Run.recover, Post.performing, Post.run, plug, hclosed]
          cases result with
          | ok value => rfl
          | error error => rfl

/-- Unwinding does not read the top frame and those below it from the stack it is given. -/
theorem unwindFrom_congr (machine : Machine) (stack other : Stack) (host : Host) (top : Frame)
    (below : List Frame)
    (hsame : ∀ top below, { stack with top, below } = ({ other with top, below } : Stack)) :
    machine.unwindFrom stack host top below = machine.unwindFrom other host top below := by
  induction below generalizing host top with
  | nil => simp only [Machine.unwindFrom, hsame]
  | cons parent rest ih => simp only [Machine.unwindFrom, hsame, ih]

/-- A computation that has ended with nothing left to run hands its outcome to its performer. -/
theorem handed_down (hprogress : progress ≠ .finished) (computation : Computation) (tag : Option HandlerTag)
    (unwound : Local) (outcome : Outcome) (hdefers : unwound.defers = []) (haround : unwound.around.isSome = loc.ended.isSome) :
    (post.inner setting progress loc computation tag).unwinding setting unwound outcome =
      post.received setting progress outcome (loc.outer unwound) := by
  obtain ⟨host, turns, defers, answerable, ended, around⟩ := loc
  obtain ⟨host', turns', defers', answerable', ended', around'⟩ := unwound
  cases hdefers
  cases ended with
  | none =>
      cases around' with
      | none =>
          unfold Post.unwinding Machine.unwind Machine.unwindFrom
          simp only [Post.inner, Post.performing, Post.run, plug_none]
          rw [if_neg fun h => by cases (isFinished_of_ne hprogress).symm.trans h]
          cases outcome with
          | ok value => rfl
          | error error => rfl
      | some result => cases haround
  | some before =>
      cases around' with
      | none => cases haround
      | some result =>
          cases outcome with
          | ok value => exact congrArg (Moment.mk · _) (unwindFrom_congr _ _ _ _ _ _ fun _ _ => rfl)
          | error error =>
              cases result with
              | ok value => exact congrArg (Moment.mk · _) (unwindFrom_congr _ _ _ _ _ _ fun _ _ => rfl)
              | error existing => exact congrArg (Moment.mk · _) (unwindFrom_congr _ _ _ _ _ _ fun _ _ => rfl)

/-- A computation that has ended handles the effect that was deferred last. -/
theorem unwinding_cons (hbelow : post.below ≠ []) {host : Host} {turns : Nat} {effect : Effect}
    {defers : List Effect} {answerable : List Slot} {result : Outcome} {around : Option Outcome} :
    post.unwinding setting ⟨host, turns, effect :: defers, answerable, some result, around⟩ result =
      { run := setting.machine.handle effect
          (post.performing setting progress
            ⟨host.emit (.deferredStarted effect.kind), turns, defers, answerable, some result, around⟩)
        turns } := by
  obtain ⟨parent, rest, hparent⟩ := List.exists_cons_of_ne_nil (Post.plug_ne_nil hbelow around)
  unfold Post.unwinding Machine.unwind
  simp only [Post.run, Post.performing, hparent]
  rfl

/-! ## The simulation -/

/-- What has become of a computation at a post when one of its effects has an outcome. -/
structure Received (setting : Setting) (post : Post) (progress : Progress) (loc : Local) (run : Run)
    (outcome : Outcome) (after : Local) : Prop where
  reaches : Reaches setting { run, turns := loc.turns } (post.received setting progress outcome after)
  ended : after.ended.isSome = loc.ended.isSome
  around : after.around.isSome = loc.around.isSome

/-- What evaluation says of servicing an effect, from some handler on, is what becomes of it on a stack. -/
def ServesAlike (setting : Setting) (fuel : Nat) (effect : Effect) : Prop :=
  ∀ (post : Post) (site : Site) (loc after : Local) (progress : Progress) (first : Nat) (outcome : Outcome),
    Direct.serve setting site fuel loc effect first = some (outcome, after) →
    post.Holds site loc.around → progress ≠ .finished → (loc.ended.isSome = true → post.below ≠ []) →
    Received setting post progress loc
      (Machine.settled (setting.machine.dispatch effect first (post.performing setting progress loc))) outcome after

/-- What evaluation with some fuel says is what a stack does. -/
structure Simulated (setting : Setting) (fuel : Nat) : Prop where
  body : ∀ (post : Post) (site : Site) (loc after : Local) (code : Body) (outcome : Outcome),
    Direct.body setting site fuel loc code = some (outcome, after) →
    post.Holds site loc.around → post.below ≠ [] → loc.ended = none →
    Reaches setting (post.moment setting loc (.running code) (.ok .null))
        (post.moment setting after (.running (.done outcome)) (.ok .null)) ∧
      after.ended = none ∧ after.around.isSome = loc.around.isSome
  perform : ∀ (post : Post) (site : Site) (loc after : Local) (progress : Progress) (effect : Effect)
      (outcome : Outcome),
    Direct.perform setting site fuel loc effect = some (outcome, after) →
    post.Holds site loc.around → progress ≠ .finished → (loc.ended.isSome = true → post.below ≠ []) →
    Received setting post progress loc
      (setting.machine.handle effect (post.performing setting progress loc)) outcome after
  serve : ∀ effect, ServesAlike setting fuel effect
  compute : ∀ (post : Post) (site : Site) (loc after : Local) (progress : Progress)
      (computation : Computation) (tag : Option HandlerTag) (outcome : Outcome),
    Direct.compute setting site fuel loc computation tag = some (outcome, after) →
    post.Holds site loc.around → progress ≠ .finished →
    Received setting post progress loc
      ((post.performing setting progress loc).push computation tag) outcome after
  unwind : ∀ (post : Post) (site : Site) (loc after : Local) (result outcome : Outcome),
    Direct.unwind setting site fuel loc = some (outcome, after) →
    post.Holds site loc.around → post.below ≠ [] → loc.ended = some result →
    Reaches setting (post.unwinding setting loc result) (post.unwinding setting after outcome) ∧
      after.defers = [] ∧ after.around.isSome = loc.around.isSome

namespace Simulated

variable {fuel : Nat} {after : Local} {outcome : Outcome}

/-- The body of a computation, one step at a time. -/
theorem body_succ (simulated : Simulated setting fuel) (code : Body)
    (hbody : Direct.body setting site (fuel + 1) loc code = some (outcome, after))
    (holds : post.Holds site loc.around) (hbelow : post.below ≠ []) (hended : loc.ended = none) :
    Reaches setting (post.moment setting loc (.running code) (.ok .null))
        (post.moment setting after (.running (.done outcome)) (.ok .null)) ∧
      after.ended = none ∧ after.around.isSome = loc.around.isSome := by
  have hgoes := Post.goes_moment setting loc hbelow (.running code) (.ok .null)
  cases code with
  | done ending =>
      cases hbody
      exact ⟨.refl _, hended, rfl⟩
  | perform effect resume =>
      rw [Direct.body] at hbody
      split at hbody
      · -- the body is suspended, the effect is serviced, and the body goes on with its outcome
        rename_i answer answered hperform
        have received := simulated.perform post site loc answered (.suspended resume) effect answer hperform
          holds (fun h => nomatch h) fun _ => hbelow
        have hopen : answered.ended = none := by
          have hsame := received.ended
          rw [hended] at hsame
          exact Option.isNone_iff_eq_none.1 (Option.isSome_eq_false_iff.1 hsame)
        have hreached := received.reaches
        rw [received_of_none hopen] at hreached
        obtain ⟨hrest, hstill, haround⟩ := simulated.body post site answered after (resume answer) outcome
          hbody (holds.congr received.around) hbelow hopen
        refine ⟨.step hgoes ?_, hstill, haround.trans received.around⟩
        rw [Post.next_perform effect resume hended]
        refine hreached.trans (.step (Post.goes_moment setting answered hbelow _ _) ?_)
        rw [Post.next_suspended]
        exact hrest
      · cases hbody
  | act action resume =>
      rw [Direct.body] at hbody
      split at hbody
      · rename_i host answer hreact
        obtain ⟨hrest, hsame⟩ := simulated.body post site _ after _ outcome hbody holds hbelow hended
        exact ⟨.step hgoes (Post.next_reply hreact ▸ hrest), hsame⟩
      · rename_i host answer hreact
        obtain ⟨hrest, hsame⟩ := simulated.body post site _ after _ outcome hbody holds hbelow hended
        exact ⟨.step hgoes (Post.next_giveWay hreact ▸ hrest), hsame⟩
      · rename_i host occasions hreact
        obtain ⟨hrest, hsame⟩ := simulated.body post site _ after _ outcome hbody holds hbelow hended
        exact ⟨.step hgoes (Post.next_wait hreact ▸ hrest), hsame⟩

/-- An effect is checked and serviced. -/
theorem perform_succ (simulated : Simulated setting fuel) (effect : Effect)
    (hperform : Direct.perform setting site (fuel + 1) loc effect = some (outcome, after))
    (holds : post.Holds site loc.around) (hprogress : progress ≠ .finished)
    (hbelow : loc.ended.isSome = true → post.below ≠ []) :
    Received setting post progress loc
      (setting.machine.handle effect (post.performing setting progress loc)) outcome after := by
  rw [Direct.perform] at hperform
  split at hperform
  · rename_i error host hchecked
    cases hperform
    refine ⟨?_, rfl, rfl⟩
    simp only [Machine.handle_eq_settled, Machine.attempt, Post.host_performing, hchecked]
    rw [Post.performing_withHost]
    exact rejected { loc with host } holds error hprogress hbelow
  · rename_i host hchecked
    have received := simulated.serve effect post site { loc with host } after progress 0 outcome hperform
      holds hprogress hbelow
    refine ⟨?_, received.ended, received.around⟩
    simp only [Machine.handle_eq_settled, Machine.attempt, Post.host_performing, hchecked]
    rw [Post.performing_withHost]
    exact received.reaches

/-! ### Services -/

section Serve

variable (simulated : Simulated setting fuel) (hcore : setting.machine.registry.LeavesCore)
include hcore

/-- An effect that is deferred is answered at once. -/
theorem serves_defer (effect : Effect) : ServesAlike setting (fuel + 1) (.defer effect) := by
  intro post site loc after progress first outcome hserve holds hprogress hbelow
  have hserved : some (.ok .null, { loc with defers := effect :: loc.defers }) = some (outcome, after) := hserve
  cases hserved
  rw [hcore.dispatch (by simp [Kind.cores, Effect.kind])]
  refine ⟨?_, rfl, rfl⟩
  have hanswered := @answered setting post { loc with defers := effect :: loc.defers } progress hbelow
  rw [← Post.deferOnTop_performing] at hanswered
  exact hanswered

/-- Recovery is read directly only where the computation has not ended. -/
theorem serves_recover : ServesAlike setting (fuel + 1) .recover := by
  intro post site loc after progress first outcome hserve holds hprogress hbelow
  have hserved : (if loc.ended.isSome then none else some loc.recover) = some (outcome, after) := hserve
  rw [hcore.dispatch (by simp [Kind.cores, Effect.kind])]
  split at hserved
  · cases hserved
  · rename_i hopen
    have hended : loc.ended = none := Option.not_isSome_iff_eq_none.1 hopen
    have hrecovered := @recovered setting post site loc progress holds hended
    have houtcome : loc.recover.1 = outcome := congrArg Prod.fst (Option.some.inj hserved)
    have hafter : loc.recover.2 = after := congrArg Prod.snd (Option.some.inj hserved)
    rw [houtcome, hafter] at hrecovered
    refine ⟨hrecovered ▸ .refl _, ?_, ?_⟩
    · rw [← hafter, loc.recover_ended]
    · rw [← hafter, loc.recover_around]

include simulated

/-- A computation is evaluated, written as an operation or not. -/
theorem serves_computation {effect : Effect} {computation : Computation}
    (heffect : effect = .bare computation ∨ effect = .execute computation) :
    ServesAlike setting (fuel + 1) effect := by
  intro post site loc after progress first outcome hserve holds hprogress hbelow
  have hkind : effect.kind ∈ Kind.cores := by
    rcases heffect with rfl | rfl <;> simp [Kind.cores, Effect.kind]
  rw [hcore.dispatch hkind]
  rcases heffect with rfl | rfl
  all_goals exact simulated.compute post site loc after progress computation none outcome hserve holds hprogress

/-- The body that the library has for a function is evaluated. -/
theorem serves_call (function : Function) (args : List Value) :
    ServesAlike setting (fuel + 1) (.call function args) := by
  intro post site loc after progress first outcome hserve holds hprogress hbelow
  rw [hcore.dispatch (by simp [Kind.cores, Effect.kind]), Machine.core, Machine.invoke_eq]
  have received := simulated.compute post site (loc.emit (.called function.name)) after progress _ none outcome hserve
    holds hprogress
  refine ⟨?_, received.ended, received.around⟩
  have hreaches := received.reaches
  rw [Local.emit, ← Post.performing_withHost, ← Post.host_performing setting progress post loc] at hreaches
  exact hreaches

/-- An effect that is to start is serviced in its place. -/
theorem serves_start (effect : Effect) : ServesAlike setting (fuel + 1) (.start effect) := by
  intro post site loc after progress first outcome hserve holds hprogress hbelow
  rw [hcore.dispatch (by simp [Kind.cores, Effect.kind])]
  exact simulated.serve effect post site loc after progress 0 outcome hserve holds hprogress hbelow

/-- A delegated effect is serviced from the next handler on; a misplaced delegation is rejected. -/
theorem serves_next (effect : Effect) : ServesAlike setting (fuel + 1) (.next effect false) := by
  intro post site loc after progress first outcome hserve holds hprogress hbelow
  rw [hcore.dispatch (by simp [Kind.cores, Effect.kind]), Machine.core]
  have hdelegation : Machine.delegation (post.performing setting progress loc) effect = site.delegation effect :=
    holds.delegation effect
  rw [Direct.serve] at hserve
  rw [hdelegation]
  cases hposition : site.delegation effect with
  | error error =>
      rw [hposition] at hserve
      cases hserve
      exact ⟨rejected loc holds error hprogress hbelow, rfl, rfl⟩
  | ok position =>
      rw [hposition] at hserve
      exact simulated.serve effect post site loc after progress position outcome hserve holds hprogress hbelow

omit hcore in
/-- An operation of a plugin is serviced by the handler that takes it, and rejected when none does. -/
theorem serves_custom (kind : String) (payload : Payload) : ServesAlike setting (fuel + 1) (.custom kind payload) := by
  intro post site loc after progress first outcome hserve holds hprogress hbelow
  have hcontext : (post.performing setting progress loc).stack.context = setting.context := by
    obtain ⟨stage, result, hrun⟩ := Post.performing_eq setting progress post loc
    rw [hrun]
    rfl
  have hhost := Post.host_performing setting progress post loc
  rw [Direct.serve] at hserve
  rcases hselected : loc.host.run
    (setting.machine.registry.select (.custom kind payload) setting.context first) with ⟨chosen, host⟩
  rw [hselected] at hserve
  rw [← hhost, ← hcontext] at hselected
  rw [Machine.dispatch_of_select hselected]
  cases chosen with
  | some choice =>
      obtain ⟨index, handler⟩ := choice
      have hheight : (post.performing setting progress loc).stack.height = site.labels.length := by
        obtain ⟨stage, result, hrun⟩ := Post.performing_eq setting progress post loc
        rw [hrun, holds.height_run]
      have received := simulated.compute post site _ after progress _ _ outcome hserve holds hprogress
      refine ⟨?_, received.ended, received.around⟩
      have hrun := Post.performing_withHost setting progress post loc
        (host.emit (.dispatched kind index (site.labels.length + 1)))
      have hreaches := received.reaches
      unfold Local.emit at hreaches
      rw [← hrun, ← hheight, ← hcontext] at hreaches
      exact hreaches
  | none =>
      cases hserve
      refine ⟨?_, rfl, rfl⟩
      have hrejected := @rejected setting post site progress { loc with host } holds (.unrecognized kind)
        hprogress hbelow
      rw [← Post.performing_withHost] at hrejected
      exact hrejected

/-- An effect is serviced by a handler or by the core rule of its operation. -/
theorem serve_succ (effect : Effect) : ServesAlike setting (fuel + 1) effect := by
  cases effect with
  | bare computation => exact serves_computation simulated hcore (.inl rfl)
  | execute computation => exact serves_computation simulated hcore (.inr rfl)
  | call function args => exact serves_call simulated hcore function args
  | start effect => exact serves_start simulated hcore effect
  | defer effect => exact serves_defer hcore effect
  | recover => exact serves_recover hcore
  | custom kind payload => exact serves_custom simulated kind payload
  | next effect inPlace =>
      cases inPlace with
      -- replacing the current frame has no direct reading
      | true => exact fun _ _ _ _ _ _ _ hserve => nomatch hserve
      | false => exact serves_next simulated hcore effect
  | fork | terminal | generator => exact fun _ _ _ _ _ _ _ hserve => nomatch hserve

end Serve

/-- A computation is evaluated with all that was deferred in it. -/
theorem compute_succ (simulated : Simulated setting fuel) (computation : Computation)
    (tag : Option HandlerTag)
    (hcompute : Direct.compute setting site (fuel + 1) loc computation tag = some (outcome, after))
    (holds : post.Holds site loc.around) (hprogress : progress ≠ .finished) :
    Received setting post progress loc
      ((post.performing setting progress loc).push computation tag) outcome after := by
  rw [Direct.compute] at hcompute
  split at hcompute
  · rename_i ending ended hbody
    split at hcompute
    · rename_i result unwound hunwind
      cases hcompute
      -- three stretches of the stack: the body, its end, and what was deferred, ending with the outcome handed down
      let inner := post.inner setting progress loc computation tag
      have hbelow : inner.below ≠ [] := List.cons_ne_nil _ _
      have hinner := holds.inner setting hprogress computation tag
      obtain ⟨hran, hopen, hsteady⟩ := simulated.body inner _ loc.inner ended _ ending hbody hinner hbelow rfl
      have haround := (congrArg Option.isSome
        (ended.finish_around (site.inner computation tag).labels ending)).trans hsteady
      have hended := hinner.congr haround
      obtain ⟨hunwound, hdefers, hstill⟩ := simulated.unwind inner _ _ unwound ending outcome hunwind hended
        hbelow rfl
      have hsame : unwound.around.isSome = loc.ended.isSome := hstill.trans haround
      refine ⟨?_, hsame, rfl⟩
      rw [← handed_down hprogress computation tag unwound outcome hdefers hsame]
      rw [Post.push_performing]
      refine .step (Post.goes_moment setting _ hbelow _ _) ?_
      rw [Post.next_fresh]
      refine hran.trans (.step (Post.goes_moment setting _ hbelow _ _) ?_)
      rw [Post.next_done (hinner.congr hsteady)]
      exact hunwound
    · cases hcompute
  · cases hcompute

/-- What was deferred is evaluated, one effect at a time. -/
theorem unwind_succ (simulated : Simulated setting fuel) (result : Outcome)
    (hunwind : Direct.unwind setting site (fuel + 1) loc = some (outcome, after))
    (holds : post.Holds site loc.around) (hbelow : post.below ≠ []) (hended : loc.ended = some result) :
    Reaches setting (post.unwinding setting loc result) (post.unwinding setting after outcome) ∧
      after.defers = [] ∧ after.around.isSome = loc.around.isSome := by
  obtain ⟨host, turns, defers, answerable, ended, around⟩ := loc
  cases hended
  rw [Direct.unwind] at hunwind
  cases defers with
  | nil =>
      cases hunwind
      exact ⟨.refl _, rfl, rfl⟩
  | cons effect defers =>
      dsimp only at hunwind
      split at hunwind
      · rename_i answer answered hperform
        have received := simulated.perform post site _ answered .root effect answer hperform holds
          (fun h => nomatch h) fun _ => hbelow
        have hended : (answered.absorb answer).ended.isSome = true :=
          (answered.absorb_ended answer).trans received.ended
        obtain ⟨next, hnext⟩ := Option.isSome_iff_exists.1 hended
        have haround := (congrArg Option.isSome (answered.absorb_around answer)).trans received.around
        obtain ⟨hrest, hdefers, hstill⟩ := simulated.unwind post site _ after next outcome hunwind
          (holds.congr haround) hbelow hnext
        have hreached := received.reaches
        rw [Post.received, hnext] at hreached
        refine ⟨?_, hdefers, hstill.trans haround⟩
        rw [unwinding_cons hbelow]
        exact hreached.trans hrest
      · cases hunwind

end Simulated

/-- A stack does what direct evaluation says, whatever the fuel. -/
theorem simulated (hcore : setting.machine.registry.LeavesCore) (fuel : Nat) : Simulated setting fuel := by
  induction fuel with
  | zero =>
      exact
        { body := fun _ _ _ _ _ _ hbody => nomatch hbody
          perform := fun _ _ _ _ _ _ _ hperform => nomatch hperform
          serve := fun _ _ _ _ _ _ _ _ hserve => nomatch hserve
          compute := fun _ _ _ _ _ _ _ _ hcompute => nomatch hcompute
          unwind := fun _ _ _ _ _ _ hunwind => nomatch hunwind }
  | succ fuel ih =>
      exact
        { body := fun _ _ _ _ code _ hbody => ih.body_succ code hbody
          perform := fun _ _ _ _ _ effect _ hperform => ih.perform_succ effect hperform
          serve := ih.serve_succ hcore
          compute := fun _ _ _ _ _ computation tag _ hcompute => ih.compute_succ computation tag hcompute
          unwind := fun _ _ _ _ result _ hunwind => ih.unwind_succ result hunwind }

/-! ## The main statement -/

/-- A program is begun on a stack that has nothing but its sentinel. -/
theorem begin_eq (hcore : setting.machine.registry.LeavesCore) (effect : Effect) (host : Host) :
    setting.begin effect host =
      { run := setting.machine.handle effect
          (Post.performing setting { name := none, tag := none, below := [] } .root { host })
        turns := 0 } := by
  have hsubmission : setting.machine.submission effect = effect := by
    have hstart : Kind.start ∈ Kind.cores := by simp [Kind.cores]
    have hnone := hcore.handlersOf hstart
    rw [Machine.submission, Registry.hasHandlers, hnone]
    rfl
  rw [Setting.begin, hsubmission]
  rfl

end

/-- The machine refines direct evaluation.  Whenever a program, a call, a computation or an operation of a
plugin, is evaluated directly, a stack that is given the program settles with exactly that outcome, on
exactly that host, whatever other processes do meanwhile. -/
theorem settles_of_evaluate {setting : Setting} (hcore : setting.machine.registry.LeavesCore)
    {fuel : Nat} {effect : Effect} {host : Host} {outcome : Outcome} {loc : Local}
    (hevaluate : evaluate setting fuel effect host = some (outcome, loc)) :
    (∃ steps, setting.settle steps (setting.begin effect host) = some (outcome, loc.host)) ∧
      ∀ steps answer, setting.settle steps (setting.begin effect host) = some answer →
        answer = (outcome, loc.host) := by
  have hperform : perform setting { tag := none, labels := [] } fuel { host } effect =
      some (outcome, loc) := by
    unfold evaluate at hevaluate
    split at hevaluate
    · exact hevaluate
    · exact hevaluate
    · exact hevaluate
    · exact hevaluate
    · cases hevaluate
  have received := (simulated hcore fuel).perform { name := none, tag := none, below := [] } _ _ loc .root
    effect outcome hperform ⟨rfl, rfl, rfl⟩ (fun h => nomatch h) fun h => nomatch h
  have hopen : loc.ended = none :=
    Option.isNone_iff_eq_none.1 (Option.isSome_eq_false_iff.1 received.ended)
  have hreached := received.reaches
  rw [received_of_none hopen] at hreached
  have hbegin : Reaches setting (setting.begin effect host) _ := begin_eq hcore effect host ▸ hreached
  obtain ⟨steps, hsettle⟩ := Setting.settle_of_reaches hbegin (plug_nil loc.around)
  exact ⟨⟨steps, hsettle⟩, fun more answer hanswer => Setting.settle_unique hanswer hsettle⟩

namespace Rescue

/-- Asks the next handler, and turns its error into a value. -/
def careful : Handler :=
  .ofHandle fun operation _ =>
    ⟨some "careful", .perform (.defer (.bare ⟨none, .andThen .recover .ok⟩)) fun _ =>
      .andThen (.next operation false) .ok⟩

/-- A machine whose plugin answers questions carefully. -/
def machine : Machine where
  registry := { handlers := [("@app/ask", careful)] }
  library := ⟨fun _ _ => ⟨none, .andThen (.custom "@app/ask" .unit) .ok⟩⟩

/-- No other process changes the host. -/
def alone : Setting where
  machine := machine
  context := .blank 0
  others := fun _ host => host

/-- A call of a function that asks a question nobody answers. -/
def main : Effect :=
  .call ⟨0, "question"⟩ []

/-- What is local to the evaluation of the call at its end. -/
def after : Local :=
  ((evaluate alone 30 main {}).map Prod.snd).getD { host := {} }

/-- Whether an outcome is no value. -/
def isNothing : Outcome → Bool
  | .ok .null => true
  | _ => false

/-- The error of the question becomes a value. -/
theorem evaluate_main : evaluate alone 30 main {} = some (.ok .null, after) := by
  have hanswered : (evaluate alone 30 main {}).any (fun answer => isNothing answer.1) = true := by
    decide +kernel
  obtain ⟨⟨outcome, last⟩, hanswer, hnothing⟩ := (Option.any_eq_true _ _).1 hanswered
  have hlast : after = last := by rw [after, hanswer, Option.map_some, Option.getD_some]
  rw [hanswer, hlast]
  unfold isNothing at hnothing
  split at hnothing
  · rename_i hvalue
    obtain rfl : outcome = .ok .null := hvalue
    rfl
  · cases hnothing

/-- The plugin services only operations of its own. -/
theorem leavesCore : machine.registry.LeavesCore := by
  intro entry hentry
  rw [List.mem_singleton.1 hentry]
  decide

end Rescue

/-- A stack that is given the call settles with what the handler makes of the error. -/
theorem rescue_settles :
    (∃ steps, Rescue.alone.settle steps (Rescue.alone.begin Rescue.main {}) =
      some (.ok .null, Rescue.after.host)) ∧
      ∀ steps answer, Rescue.alone.settle steps (Rescue.alone.begin Rescue.main {}) = some answer →
        answer = (.ok .null, Rescue.after.host) :=
  settles_of_evaluate Rescue.leavesCore Rescue.evaluate_main

end Direct
end EffectMachine
