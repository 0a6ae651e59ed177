import CameraPanel.Cell
import CameraPanel.FieldSet
import CameraPanel.Watchers

/-!
# The settings of a panel

The settings are one cell for each field, the visibility of the panel, the results of reads that wait to be applied,
and the watchers of the fields.  `digest` applies the waiting results in their order, then looks at the fields that
were edited since the last digest and reports their changes to the watchers.
-/

namespace CameraPanel

/-- The settings of a panel whose watchers have labels `α`. -/
structure Settings (α : Type) where
  cells : PerField (Cell .double)
  visible : Bool
  /-- The fields edited since the last digest. -/
  edited : FieldSet
  /-- The results of reads that wait for the next digest, oldest first. -/
  waiting : List (Field × Option Double)
  watchers : Watchers Field α

/-- What a digest found. -/
structure Digest (α : Type) where
  /-- The fields of results that came too late. -/
  stale : List Field
  changes : List (Field × Change .double)
  /-- The labels of the watchers to call, each with its field and change. -/
  calls : List (α × Field × Change .double)

namespace Settings

variable {α : Type}

/-- Settings with every field unset. -/
def new (visible : Bool) : Settings α := ⟨.fill .new, visible, .empty, [], .empty⟩

/-! ### Values -/

/-- The current value of a field. -/
def field (s : Settings α) (k : Field) : Option Double := (s.cells.get k).current

def isHydrated (s : Settings α) (k : Field) : Bool := (s.cells.get k).hydrated

/-- Whether every field is hydrated. -/
def isFullyHydrated (s : Settings α) : Bool := Field.all.all s.isHydrated

/-- The current values of the six fields. -/
def values (s : Settings α) : PerField (Option Double) := .ofFn s.field

/-- The six values, if every field has one. -/
def snapshot? (s : Settings α) : Option Offsets :=
  if Field.all.all fun k => (s.field k).isSome then some (.ofFn fun k => (s.field k).getD k.default) else none

/-- A local edit. -/
def edit (s : Settings α) (k : Field) (value : Option Double) : Settings α :=
  { s with
    cells := s.cells.set k ((s.cells.get k).assign value)
    edited := if (s.cells.get k).changes value then s.edited.insert k else s.edited }

/-- A local edit that was already written to the remote side. -/
def assignSynced (s : Settings α) (k : Field) (value : Double) : Settings α :=
  { s with cells := s.cells.set k ((s.cells.get k).assignSynced value) }

/-- Holds the result of a read until the next digest. -/
def enqueue (s : Settings α) (k : Field) (value : Option Double) : Settings α :=
  { s with waiting := s.waiting ++ [(k, value)] }

def toggleVisible (s : Settings α) : Settings α := { s with visible := !s.visible }

def watch (s : Settings α) (k : Field) (label : α) : Settings α × Option Handle :=
  let added := s.watchers.watch k label
  ({ s with watchers := added.1 }, added.2)

def unwatch (s : Settings α) (handle : Handle) : Settings α × Bool :=
  let (watchers, found) := s.watchers.unwatch handle
  ({ s with watchers }, found)

/-! ### Digests -/

/-- Applies the results of reads in order; also the fields whose result came too late. -/
def applyReads (cells : PerField (Cell .double)) :
    List (Field × Option Double) → PerField (Cell .double) × List Field
  | [] => (cells, [])
  | (k, value) :: rest =>
    let c := cells.get k
    let (cells', stale) := applyReads (cells.set k (c.hydrate value)) rest
    (cells', if c.hydrated then k :: stale else stale)

/-- Observes the cells of some fields in order; also the changes they report. -/
def observeAll (cells : PerField (Cell .double)) :
    List Field → PerField (Cell .double) × List (Field × Change .double)
  | [] => (cells, [])
  | k :: rest =>
    let c := cells.get k
    let (cells', changes) := observeAll (cells.set k c.observe) rest
    (cells', match c.change? with
      | some change => (k, change) :: changes
      | none => changes)

/-- Applies the waiting results of reads, then reports the changes of the edited fields. -/
def digest (s : Settings α) : Settings α × Digest α :=
  let (cells, stale) := applyReads s.cells s.waiting
  let (cells, changes) := observeAll cells s.edited.toList
  ({ s with cells, waiting := [], edited := .empty },
    { stale, changes, calls := changes.flatMap fun (k, change) => (s.watchers.labels k).map fun a => (a, k, change) })

end Settings

end CameraPanel
