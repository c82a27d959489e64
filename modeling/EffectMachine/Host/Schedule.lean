import EffectMachine.Program.Action

/-!
# Schedules

Which process runs next.  Processes that can run stand in a queue, once each; those that gave up their turn stand
aside until the queue is empty or has gone on for long, and then the last one to do so goes first.  Processes that wait
for something are kept in the order they began to wait, which is the order they are woken in.

A process may be woken while it runs.  It then gets another turn as soon as it stops, which it may use up by finding
that it has to wait on.

Main statements: `Schedule.nodup_ready_enqueue`, nobody stands in the queue twice, and `Schedule.ready_announce`,
waking some processes moves nobody who can already run.
-/

namespace EffectMachine

/-- Something that a process can wait for. -/
inductive Occasion where
  /-- A process ends. -/
  | ended (task : TaskId)
  /-- A timer runs out. -/
  | expired (timer : TimerId)
  /-- A batched call is answered or dropped. -/
  | settled (slot : Slot)
  deriving DecidableEq

/-- A process that waits, and what for. -/
structure Waiter where
  process : TaskId
  occasions : List Occasion

/-- Who runs next, and who waits for what. -/
structure Schedule where
  /-- Processes that can run, in the order they will. -/
  ready : List TaskId := []
  /-- Processes that gave up their turn, the last one first. -/
  yielded : List TaskId := []
  /-- Processes that wait, in the order they began to. -/
  waiting : List Waiter := []
  /-- Whether the running process was woken while it ran. -/
  woken : Bool := false
  /-- How many turns the queue has given out since it last let in those that had stood aside. -/
  turns : Nat := 0

namespace Schedule

/-- Puts a process at the end of the queue, unless it is in the queue. -/
def enqueue (schedule : Schedule) (process : TaskId) : Schedule :=
  if schedule.ready.contains process then schedule
  else { schedule with ready := schedule.ready ++ [process] }

/-- Wakes every process that waits for an occasion. -/
def announce (schedule : Schedule) (occasion : Occasion) : Schedule :=
  ((schedule.waiting.filter fun waiter => waiter.occasions.contains occasion).map
    Waiter.process).foldl enqueue schedule

/-- How many turns are given out before those that stand aside are let in. -/
def patience : Nat := 61

/-- How many occasions a process can wait for without looking once more right after it begins to. -/
def crowd : Nat := 30

/-- The running process stops running.  If it was woken meanwhile, it gets another turn. -/
def release (schedule : Schedule) (process : TaskId) : Schedule :=
  if schedule.woken then enqueue { schedule with woken := false } process else schedule

/-- Whether a process waits. -/
def isWaiting (schedule : Schedule) (process : TaskId) : Bool :=
  schedule.waiting.any fun waiter => waiter.process = process

/-- The running process begins to wait, or goes on waiting at the place it had. -/
def await (schedule : Schedule) (process : TaskId) (occasions : List Occasion) : Schedule :=
  if schedule.isWaiting process then
    let waiting := schedule.waiting.map fun waiter =>
      if waiter.process = process then { waiter with occasions } else waiter
    release { schedule with waiting } process
  else
    let waiting := schedule.waiting ++ [⟨process, occasions⟩]
    release { schedule with waiting, woken := schedule.woken || decide (crowd < occasions.length) } process

/-- The running process waits no longer. -/
def proceed (schedule : Schedule) (process : TaskId) : Schedule :=
  { schedule with waiting := schedule.waiting.filter fun waiter => waiter.process ≠ process }

/-- The running process gives up its turn. -/
def giveWay (schedule : Schedule) (process : TaskId) : Schedule :=
  let yielded :=
    if schedule.yielded.head? = some process then schedule.yielded else process :: schedule.yielded
  release { schedule with yielded } process

/-- Lets in all processes that stand aside. -/
def letIn (schedule : Schedule) : Schedule :=
  schedule.yielded.foldl enqueue { schedule with yielded := [], turns := 0 }

/-- The schedule just before the next turn. -/
def beforeTurn (schedule : Schedule) : Schedule :=
  if schedule.ready.isEmpty || schedule.turns = patience then schedule.letIn else schedule

/-- The process that runs next, if any can. -/
def next? (schedule : Schedule) : Option (TaskId × Schedule) :=
  let schedule := schedule.beforeTurn
  match schedule.ready with
  | process :: rest =>
    some (process, { schedule with ready := rest, turns := schedule.turns + 1, woken := false })
  | [] => none

/-- No process stands in the queue twice. -/
theorem nodup_ready_enqueue {schedule : Schedule} (process : TaskId)
    (once : schedule.ready.Nodup) : (schedule.enqueue process).ready.Nodup := by
  unfold enqueue
  split
  · exact once
  · rename_i absent
    rw [List.nodup_append]
    refine ⟨once, List.nodup_cons.2 ⟨List.not_mem_nil, List.nodup_nil⟩, ?_⟩
    intro a left b right same
    rw [List.mem_singleton.1 right] at same
    exact absent (List.contains_iff_mem.2 (same ▸ left))

/-- A process that was put into the queue is there. -/
theorem mem_ready_enqueue (schedule : Schedule) (process : TaskId) :
    process ∈ (schedule.enqueue process).ready := by
  unfold enqueue
  split
  · rename_i present
    exact List.contains_iff_mem.1 present
  · simp

/-- Those that stand in the queue keep their places when others are put behind them. -/
theorem ready_isPrefixOf_foldl_enqueue (processes : List TaskId) (schedule : Schedule) :
    ∃ added, (processes.foldl enqueue schedule).ready = schedule.ready ++ added := by
  induction processes generalizing schedule with
  | nil => exact ⟨[], by simp⟩
  | cons process rest ih =>
    obtain ⟨added, later⟩ := ih (schedule.enqueue process)
    rw [List.foldl_cons, later]
    unfold enqueue
    split
    · exact ⟨added, rfl⟩
    · exact ⟨process :: added, by simp⟩

/-- Waking some processes moves nobody who can already run. -/
theorem ready_announce (schedule : Schedule) (occasion : Occasion) :
    ∃ added, (schedule.announce occasion).ready = schedule.ready ++ added :=
  ready_isPrefixOf_foldl_enqueue _ schedule

end Schedule
end EffectMachine
