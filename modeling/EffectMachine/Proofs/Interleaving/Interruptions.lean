import EffectMachine.Proofs.Interleaving.Endings
import EffectMachine.Proofs.Protocol.Resumption

/-!
# Computations that are cut short

A cancellation does not stop a computation in the middle: a computation is given up before it begins, or
while it waits for the outcome of an effect.

* `pausing` follows where the computation of a frame stands between two of its turns.
* `Runs.stopped` says where a computation of a process at rest has come to an end, given up or not.
-/

namespace EffectMachine

theorem strides_append (acts more : List Act) : strides (acts ++ more) = strides acts ++ strides more :=
  List.filter_append ..

theorem exists_strides_of_split {acts before after : List Act} {act : Act} {number : Nat}
    (hacts : acts = before ++ act :: after) (hactor : (Roll.after before).actor act = number)
    (hstride : act.isStride = true) :
    ∃ later, strides (life acts number) = strides (life before number) ++ act :: later := by
  obtain ⟨later, hlife⟩ := exists_life_of_split hacts hactor
  have hcons : strides (act :: later) = act :: strides later := List.filter_cons_of_pos hstride
  exact ⟨strides later, by rw [hlife, strides_append, hcons]⟩

/-- Where the computation of a frame stands between two of its turns: it did not begin, or its last stride
performed an effect. -/
def Pausing (acts : List Act) (number : Nat) : Stage → Prop
  | .fresh | .doomed false => strides (life acts number) = []
  | .asking | .answered _ | .doomed true =>
    ∃ path effect, strides (life acts number) = path ++ [.performed effect]
  | .running | .ended _ => True

namespace Pausing

variable {acts : List Act} {act : Act} {number : Nat} {stage : Stage}

/-- What takes a computation no further leaves it where it stands. -/
theorem concat (hidle : act.isStride = true → (Roll.after acts).actor act ≠ number)
    (kept : Pausing acts number stage) : Pausing (acts ++ [act]) number stage := by
  have hsame : strides (life (acts ++ [act]) number) = strides (life acts number) := by
    rw [life_concat, strides_append]
    split
    · rename_i hactor
      have hstride : act.isStride = false := by
        by_contra hstride
        exact hidle (by simpa using hstride) hactor
      simp [strides, hstride]
    · simp [strides]
  unfold Pausing at kept ⊢
  rw [hsame]
  exact kept

/-- Being told an outcome takes a computation no further. -/
theorem told (kept : Pausing acts number stage) (outcome : Outcome) :
    Pausing acts number (stage.told outcome) := by
  cases stage with
  | ended own => cases own <;> cases outcome <;> trivial
  | _ => exact kept

theorem took (kept : Pausing acts number stage) (error : Error) :
    Pausing acts number (stage.took error) := by
  cases stage with
  | ended own => trivial
  | _ => exact kept

/-- A cancellation reaches a computation where it stands, unless it is running. -/
theorem marked (kept : Pausing acts number stage) (hidle : stage ≠ .running) :
    Pausing acts number stage.marked := by
  cases stage with
  | running => exact absurd rfl hidle
  | _ => exact kept

end Pausing

/-- Follows where the computations of frames stand between their turns. -/
def pausing : StageWatch where
  kept := Pausing
  fresh := by
    intro acts number computation tag hnext hunborn
    show strides (life _ number) = []
    rw [life_pushed hunborn hnext]
    rfl
  own := by
    intro acts act number stage after hhead hdoes kept
    cases hdoes with
    | begin | resume | resumeWith | act | wait | complete | giveUp => trivial
    | defer | start => exact kept.concat (by simp [Act.isStride])
    | answer | fail | fork => exact (kept.told _).concat (by simp [Act.isStride])
    | perform effect =>
        refine ⟨strides (life acts number), effect, ?_⟩
        rw [life_of_head hhead (by simp), strides_append]
        rfl
  take := fun error _ _ kept => (kept.took error).concat (by simp [Act.isStride])
  rob := fun _ _ => trivial
  receive := fun _ _ _ kept => (kept.told _).concat (by simp [Act.isStride])
  mark := fun _ hidle kept => (kept.marked hidle).concat (by simp [Act.isStride])
  stay := fun _ hother _ _ kept => kept.concat fun _ => hother

/-- A computation that is given up did not begin, or had just performed an effect. -/
theorem Obeys.strides_of_givenUp {acts before after : List Act} {stages : List Stage} (obeys : Obeys acts stages)
    (hacts : acts = before ++ .givenUp :: after) {number : Nat}
    (hactor : (Roll.after before).actor .givenUp = number) :
    strides (life before number) = [] ∨
      ∃ path effect, strides (life before number) = path ++ [.performed effect] := by
  obtain ⟨first, last, hfirst, hprotocol⟩ := obeys.split hacts
  cases hprotocol with
  | @top stage later _ hdoes stages =>
      obtain ⟨top, rest, hlive, -, -⟩ := hfirst.live_eq
      have hnumber : top = number := by simpa [Roll.actor, hlive] using hactor
      have hpausing : Pausing before number stage := hfirst.kept_top pausing (by simp [hlive, hnumber])
      cases hdoes with
      | giveUp begun =>
          cases begun with
          | false => exact .inl hpausing
          | true => exact .inr hpausing

/-- Where a computation of some strides has stopped: it was given up before it began, or it stopped by
itself, or it was given up after it performed an effect. -/
inductive Stopped (body : Body) : List Act → Prop
  | unbegun : Stopped body [.givenUp]
  | byItself (begun : Outcome) {path : List Act} (hstops : Stops body path) :
      Stopped body (.resumed begun :: path)
  | givenUp (begun : Outcome) {path : List Act} (effect : Effect)
      (hstops : Stops body (path ++ [.performed effect])) :
      Stopped body (.resumed begun :: path ++ [.performed effect, .givenUp])

/-- A computation that was given up has stopped there. -/
theorem Follows.stopped {body : Body} {path : List Act} {last : Progress}
    (follows : Follows (.fresh body) (path ++ [.givenUp]) last)
    (hpath : path = [] ∨ ∃ earlier effect, path = earlier ++ [.performed effect])
    (hkept : .givenUp ∉ path) : Stopped body (path ++ [.givenUp]) := by
  rcases hpath with rfl | ⟨earlier, effect, rfl⟩
  · exact .unbegun
  -- up to the effect the computation follows its body, and then it waits
  have hprefix : ∀ {first last : Progress} {earlier : List Act}, first ≠ .root →
      .givenUp ∉ earlier ++ [.performed effect] →
      Follows first (earlier ++ [.performed effect, .givenUp]) last →
      ∃ resume, Follows first (earlier ++ [.performed effect]) (.suspended resume) := by
    intro first last earlier hroot hkept follows
    generalize hacts : earlier ++ [.performed effect, .givenUp] = acts at follows
    induction follows generalizing earlier with
    | done progress => simp at hacts
    | @begin body outcome acts last _ ih | @resume resume outcome acts last _ ih =>
        cases earlier with
        | nil => cases hacts
        | cons head earlier =>
            obtain ⟨rfl, hrest⟩ := List.cons.inj hacts
            obtain ⟨resume, hfollows⟩ := ih (by simp) (fun hmem => hkept (List.mem_cons_of_mem _ hmem)) hrest
            first | exact ⟨resume, .begin hfollows⟩ | exact ⟨resume, .resume hfollows⟩
    | @act action resume reply acts last _ ih =>
        cases earlier with
        | nil => cases hacts
        | cons head earlier =>
            obtain ⟨rfl, hrest⟩ := List.cons.inj hacts
            obtain ⟨resume, hfollows⟩ := ih (by simp) (fun hmem => hkept (List.mem_cons_of_mem _ hmem)) hrest
            exact ⟨resume, .act hfollows⟩
    | @perform other resume acts last _ ih =>
        cases earlier with
        | nil =>
            obtain ⟨heffect, -⟩ := List.cons.inj hacts
            cases heffect
            exact ⟨resume, .perform (.done _)⟩
        | cons head earlier =>
            obtain ⟨rfl, hrest⟩ := List.cons.inj hacts
            obtain ⟨resume, hfollows⟩ := ih (by simp) (fun hmem => hkept (List.mem_cons_of_mem _ hmem)) hrest
            exact ⟨resume, .perform hfollows⟩
    | complete rest =>
        cases earlier with
        | nil => cases hacts
        | cons head earlier =>
            obtain ⟨-, hrest⟩ := List.cons.inj hacts
            rw [rest.of_finished] at hrest
            simp at hrest
    | giveUp hgoing rest =>
        cases earlier with
        | nil => cases hacts
        | cons head earlier =>
            obtain ⟨rfl, -⟩ := List.cons.inj hacts
            exact absurd List.mem_cons_self hkept
    | vacate => exact absurd rfl hroot
  rw [List.append_assoc] at follows
  obtain ⟨resume, hfollows⟩ := hprefix (by simp) hkept follows
  obtain ⟨begun, rest, hrest, hstops⟩ := hfollows.stops hkept trivial
  cases earlier with
  | nil => cases hrest
  | cons head earlier =>
      obtain ⟨rfl, rfl⟩ := List.cons.inj hrest
      rw [List.append_assoc]
      exact .givenUp begun effect hstops

/-- Nothing is a stride after a computation was given up. -/
theorem Follows.eq_of_givenUp {first last : Progress} {path more : List Act}
    (follows : Follows first (path ++ .givenUp :: more) last) : more = [] := by
  generalize hacts : path ++ .givenUp :: more = acts at follows
  induction follows generalizing path with
  | done progress => simp at hacts
  | begin _ ih | resume _ ih | act _ ih | perform _ ih =>
      cases path with
      | nil => cases hacts
      | cons head path => exact ih (List.cons.inj hacts).2
  | complete rest | vacate rest =>
      cases path with
      | nil => cases hacts
      | cons head path =>
          have hrest := (List.cons.inj hacts).2
          rw [rest.of_finished] at hrest
          simp at hrest
  | giveUp hgoing rest =>
      have hrest : (path ++ .givenUp :: more).length = 1 := by rw [hacts, rest.of_finished]; rfl
      cases path with
      | nil => simpa using hrest
      | cons head path => simp at hrest

/-- A computation of a process at rest has stopped by itself or was given up between its turns. -/
theorem Runs.stopped {machine : Machine} {first : Host} {trace : Trace} {system : System} {task : TaskId}
    {number : Nat} {computation : Computation} {tag : Option HandlerTag} (runs : Runs machine first trace system)
    (hrest : system.AtRest task) (hpushed : .pushed computation tag ∈ life (deeds trace task) number) :
    Stopped computation.body (strides (life (deeds trace task) number)) := by
  by_cases hkept : .givenUp ∈ life (deeds trace task) number
  · obtain ⟨stages, obeys⟩ := runs.exists_obeys task
    obtain ⟨before, after, hacts, hactor⟩ := exists_of_mem_life hkept
    have hpath := obeys.strides_of_givenUp hacts hactor
    obtain ⟨later, progress, hlife, plays⟩ := runs.life_eq hpushed
    have hstrides : strides (life (deeds trace task) number) = strides later := by
      rw [hlife]
      rfl
    -- what the frame did before it was given up is where it begins
    obtain ⟨more, hmore⟩ := life_prefix (before ++ [.givenUp]) after number
    rw [← List.append_cons, ← hacts, life_concat, if_pos hactor] at hmore
    have hsplit : strides (life (deeds trace task) number) =
        strides (life before number) ++ .givenUp :: strides more := by
      rw [hmore, strides_append, strides_append, List.append_assoc]
      rfl
    have follows := plays.follows
    rw [← hstrides, hsplit] at follows
    have hlast : strides more = [] := follows.eq_of_givenUp
    rw [hlast] at follows hsplit
    rw [hsplit]
    refine follows.stopped hpath fun hmem => ?_
    obtain ⟨early, mid, hearly⟩ := List.append_of_mem hmem
    rw [hearly, List.append_assoc, List.cons_append] at follows
    exact absurd follows.eq_of_givenUp (by simp)
  · obtain ⟨begun, path, hstrides, hstops⟩ := runs.stops hrest hpushed hkept
    rw [hstrides]
    exact .byItself begun hstops

end EffectMachine
