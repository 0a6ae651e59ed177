import CameraPanel.Remote.Side
import CameraPanel.Settings
import CameraPanel.Sync.Pool

/-!
# A mounted panel

A mounted panel keeps its settings and the remote side in step.  `readAll` starts a read of every field; the answers
are taken over by `takeAll` and applied by the next `digest`.  A digest also writes every field whose value
changed since both sides agreed on it.  `reset` writes the default offsets to both sides.

The panel has one watcher for each field, and the call of a watcher is a write.
-/

namespace CameraPanel

/-- The settings of a panel that was mounted as number `mount`. -/
structure Component where
  mount : Nat
  settings : Settings Unit

namespace Component

variable {ρ : Type} [RemoteSide ρ]

/-- Mounts a panel with every field unset. -/
def new (mount : Nat) (visible : Bool) : Component :=
  ⟨mount, Field.all.foldl (fun s k => (s.watch k ()).1) (.new visible)⟩

/-! ### Reads -/

/-- Starts reads of some fields, each with a task in the pool. -/
def startReads (c : Component) : List Field → ρ → Pool → Logged (ρ × Pool)
  | [], r, p => return (r, p)
  | k :: rest, r, p => do
    let (r, reading) ← RemoteSide.read r k
    startReads c rest r (p.start ⟨c.mount, k, reading⟩)

/-- Starts a read of every field. -/
def readAll (c : Component) (r : ρ) (p : Pool) : Logged (ρ × Pool) := do
  let (r, p) ← c.startReads Field.all r p
  Logged.note (.readsDispatched Field.all.length)
  return (r, p)

/-- The value of an answer; a failure is noted and has none. -/
def valueOf (k : Field) : Answer → Logged (Option Double)
  | .ok value => return value
  | .error e => do
    Logged.note (.readFailed k e)
    return none

/-- Hands a finished read to the panel.  A read of an earlier panel is discarded. -/
def take (c : Component) (f : FinishedRead) : Logged Component := do
  let value ← valueOf f.field f.answer
  if c.mount = f.mount then
    Logged.note (.readTaken f.field value)
    return { c with settings := c.settings.enqueue f.field value }
  else
    Logged.note (.readDiscarded f.field)
    return c

/-- Hands over finished reads in order. -/
def takeAll (c : Component) : List FinishedRead → Logged Component
  | [] => return c
  | f :: rest => do takeAll (← c.take f) rest

/-- Discards finished reads that no panel is there for. -/
def discardAll : List FinishedRead → Logged Unit
  | [] => return ()
  | f :: rest => do
    let _ ← valueOf f.field f.answer
    Logged.note (.readDiscarded f.field)
    discardAll rest

/-! ### Edits and writes -/

/-- A local edit. -/
def edit (c : Component) (k : Field) (value : Option Double) : Component :=
  { c with settings := c.settings.edit k value }

/-- Gives notices in order. -/
def noteAll : List Notice → Logged Unit
  | [] => return ()
  | n :: rest => do
    Logged.note n
    noteAll rest

/-- Writes the fields that a digest reports, in order. -/
def writeCalls : List (Unit × Field × Change .double) → ρ → Logged ρ
  | [], r => return r
  | (_, k, change) :: rest, r => do
    let (r, _) ← writeChanged r k (some change.new)
    writeCalls rest r

/-- Applies the reads taken over, and writes the changed fields; also how many there were. -/
def digest (c : Component) (r : ρ) : Logged (Component × ρ × Nat) := do
  let (settings, found) := c.settings.digest
  noteAll (found.stale.map .readStale)
  let r ← writeCalls found.calls r
  return ({ c with settings }, r, found.changes.length)

/-- Writes the default of each field to both sides, in order. -/
def resetFields : List Field → Settings Unit → ρ → Logged (Settings Unit × ρ)
  | [], s, r => return (s, r)
  | k :: rest, s, r => do
    let r ← RemoteSide.write r k k.default
    resetFields rest (s.assignSynced k k.default) r

/-- Restores the default offsets on both sides. -/
def reset (c : Component) (r : ρ) : Logged (Component × ρ) := do
  let (settings, r) ← resetFields Field.all c.settings r
  Logged.note .offsetsReset
  return ({ c with settings }, r)

/-- Shows a hidden panel or hides a shown one. -/
def toggle (c : Component) : Logged Component := do
  let settings := c.settings.toggleVisible
  Logged.note (.panelToggled settings.visible)
  return { c with settings }

end Component

end CameraPanel
