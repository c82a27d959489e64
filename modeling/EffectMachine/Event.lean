import EffectMachine.Batch.Key
import EffectMachine.Error.Basic

/-!
# Events

What a machine reports about its own work while it runs.  An event has a level, a message and named
fields; the fields are texts and counts.
-/

namespace EffectMachine

/-- How much an event matters. -/
inductive Level where
  | trace
  | debug
  | warn
  deriving DecidableEq

/-- The content of one field of an event. -/
inductive Field where
  | text (content : String)
  | count (n : Nat)

/-- Something a machine reports. -/
inductive Event where
  /-- A canceled frame performed an effect, which is dropped. -/
  | effectDiscarded (kind : String)
  /-- A stack took note of its cancellation. -/
  | stackCanceled (frames : Nat)
  /-- The computation of the top frame ended with an error. -/
  | computationFailed (error : Error) (frames : List String)
  /-- An effect was rejected. -/
  | effectFailed (error : Error) (frames : List String)
  /-- A handler was chosen. -/
  | dispatched (kind : String) (index depth : Nat)
  /-- A function is called. -/
  | called (function : String)
  /-- A task was spawned. -/
  | forked (task : TaskId)
  /-- The error of an unwinding frame was caught. -/
  | recovered (error : Error)
  /-- A terminated frame had deferred effects left. -/
  | defersDropped (frame : String) (count : Nat)
  /-- A frame was discarded. -/
  | terminated (frame : String)
  /-- A deferred effect begins. -/
  | deferredStarted (kind : String)
  /-- A deferred effect failed under an earlier error, which stays. -/
  | deferredFailed (error existing : Error)
  /-- A task is asked to cancel. -/
  | cancelling (task : TaskId)
  /-- A batched call runs alone. -/
  | callUnbatched (function : String)
  /-- A call opened a batch. -/
  | batchOpened (function : String) (key : BatchKey)
  /-- A batch is closed and its calls are made. -/
  | batchFlushed (function : String) (calls : Nat)
  /-- The call made for a batch failed. -/
  | batchFailed (error : Error) (function : String)
  /-- A traced operation begins. -/
  | operationStarted (kind : String)
  /-- A traced operation succeeded. -/
  | operationSucceeded (kind : String)
  /-- A traced operation failed. -/
  | operationFailed (kind : String) (error : Error)
  /-- A managed task failed. -/
  | taskFailed (error : Error)
  /-- Some listeners failed while they were told of an error. -/
  | errorListenersFailed (failure : Error)
  /-- Some listeners failed while a task was finalized. -/
  | finalizationFailed (failure : Error)

namespace Event

/-- The level of an event. -/
def level : Event → Level
  | .effectDiscarded _ | .dispatched .. | .called _ | .terminated _ | .deferredStarted _
  | .callUnbatched _ | .batchOpened .. | .operationStarted _ => .trace
  | .stackCanceled _ | .computationFailed .. | .effectFailed .. | .forked _ | .recovered _
  | .cancelling _ | .batchFlushed .. | .batchFailed .. | .operationSucceeded _ | .taskFailed _ => .debug
  | .defersDropped .. | .deferredFailed .. | .operationFailed .. | .errorListenersFailed _
  | .finalizationFailed _ => .warn

/-- The message of an event. -/
def message : Event → String
  | .effectDiscarded _ => "discarding effect of a canceled frame"
  | .stackCanceled _ => "stack canceled"
  | .computationFailed .. => "computation failed"
  | .effectFailed .. => "operation failed"
  | .dispatched .. => "dispatching to handler"
  | .called _ => "call"
  | .forked _ => "forked"
  | .recovered _ => "error recovered"
  | .defersDropped .. => "terminated frame had pending defers, they will not run"
  | .terminated _ => "frame terminated"
  | .deferredStarted _ => "running deferred operation"
  | .deferredFailed .. => "deferred operation failed, keeping the earlier error"
  | .cancelling _ => "canceling task"
  | .callUnbatched _ => "unbatched call"
  | .batchOpened .. => "batch opened"
  | .batchFlushed .. => "flushing batch"
  | .batchFailed .. => "batch failed"
  | .operationStarted _ => "operation: start"
  | .operationSucceeded _ => "operation: success"
  | .operationFailed .. => "operation: failed"
  | .taskFailed _ => "task failed"
  | .errorListenersFailed _ => "task error listeners failed"
  | .finalizationFailed _ => "task finalization failed"

/-- The written form of a chain of frame labels. -/
def writtenFrames (frames : List String) : String :=
  Text.listing (frames.map Text.quoted)

/-- The named fields of an event.  The identity of a task is not shown. -/
def fields : Event → List (String × Field)
  | .effectDiscarded kind => [("kind", .text kind)]
  | .stackCanceled frames => [("frames", .count frames)]
  | .computationFailed error frames | .effectFailed error frames =>
    [("error", .text error.message), ("frames", .text (writtenFrames frames))]
  | .dispatched kind index depth =>
    [("kind", .text kind), ("index", .count index), ("depth", .count depth)]
  | .called function | .callUnbatched function => [("func", .text function)]
  | .forked _ | .cancelling _ => [("task", .text "<id>")]
  | .recovered error | .taskFailed error => [("error", .text error.message)]
  | .defersDropped frame count => [("frame", .text frame), ("defers", .count count)]
  | .terminated frame => [("frame", .text frame)]
  | .deferredStarted kind | .operationStarted kind | .operationSucceeded kind =>
    [("kind", .text kind)]
  | .deferredFailed error existing =>
    [("error", .text error.message), ("existing", .text existing.message)]
  | .batchOpened function key => [("func", .text function), ("key", .text key.written)]
  | .batchFlushed function calls => [("func", .text function), ("calls", .count calls)]
  | .batchFailed error function => [("error", .text error.message), ("func", .text function)]
  | .operationFailed kind error => [("kind", .text kind), ("error", .text error.message)]
  | .errorListenersFailed failure | .finalizationFailed failure =>
    [("failure", .text failure.message)]

end Event
end EffectMachine
