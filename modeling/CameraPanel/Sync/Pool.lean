import CameraPanel.Remote.Reading

/-!
# The pool of reads

Each read of a panel has a task that waits for the answer and then hands it over.  Tasks run only when the pool does.
A run takes the tasks whose answers came since an earlier run, in the order in which they came, and then the tasks
that were never run, in the order in which they were started.  A task without an answer is parked.
-/

namespace CameraPanel

/-- A read of a field by the panel that was mounted as number `mount`. -/
structure ReadTask where
  mount : Nat
  field : Field
  reading : Reading Answer

/-- A read that has its answer. -/
structure FinishedRead where
  mount : Nat
  field : Field
  answer : Answer

namespace ReadTask

/-- The task with its answer, if it has one. -/
def finished? (t : ReadTask) : Option FinishedRead :=
  match t.reading with
  | .now a => some ⟨t.mount, t.field, a⟩
  | .later _ => none

/-- Whether the task waits for a ticket. -/
def awaits (ticket : Nat) (t : ReadTask) : Bool :=
  match t.reading with
  | .now _ => false
  | .later n => n = ticket

/-- The task with an answer. -/
def answered (a : Answer) (t : ReadTask) : ReadTask := { t with reading := .now a }

end ReadTask

structure Pool where
  /-- Tasks that were parked and have got their answers since, in the order of the answers. -/
  woken : List ReadTask
  /-- Tasks that were never run, oldest first. -/
  started : List ReadTask
  /-- Tasks that ran before and wait for their answers. -/
  parked : List ReadTask

namespace Pool

def empty : Pool := ⟨[], [], []⟩

/-- Adds a task. -/
def start (p : Pool) (t : ReadTask) : Pool := { p with started := p.started ++ [t] }

/-- An answer reaches the task that waits for it. -/
def deliver (p : Pool) (d : Delivery Answer) : Pool where
  woken := p.woken ++ (p.parked.filter (·.awaits d.ticket)).map (·.answered d.answer)
  started := p.started.map fun t => if t.awaits d.ticket then t.answered d.answer else t
  parked := p.parked.filter fun t => !t.awaits d.ticket

def deliverAll (p : Pool) (ds : List (Delivery Answer)) : Pool := ds.foldl deliver p

/-- Runs all tasks that can run; also the reads that are finished by it. -/
def run (p : Pool) : Pool × List FinishedRead :=
  let tasks := p.woken ++ p.started
  (⟨[], [], p.parked ++ tasks.filter fun t => t.finished?.isNone⟩, tasks.filterMap (·.finished?))

end Pool

end CameraPanel
