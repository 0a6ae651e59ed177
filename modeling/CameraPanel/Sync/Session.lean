import CameraPanel.Sync.Component

/-!
# Sessions

A session is the life of panels on one remote side: the side itself, the panel that is mounted, and the pool that runs
its reads.  Each of them can go away on its own.  The remote side goes when neither the panel nor the holder of the
session keeps it; the reads that wait for it then fail.  A panel that is mounted anew starts without values and with
a pool of its own, and reads of an earlier panel never reach it.
-/

namespace CameraPanel

structure Session (ρ : Type) where
  /-- The remote side, while somebody keeps it. -/
  remote : Option ρ
  /-- Whether the holder of the session keeps the remote side. -/
  held : Bool
  component : Option Component
  pool : Option Pool
  /-- The number of panels mounted so far. -/
  mounts : Nat

/-- Reads cannot be started because the pool is gone. -/
structure PoolClosed where
deriving DecidableEq

namespace PoolClosed

/-- The cause. -/
def reason : String := "Executor is shutdown"

def message (_ : PoolClosed) : String := "Failed to spawn read task: " ++ reason

end PoolClosed

namespace Session

variable {ρ : Type} [RemoteSide ρ]

/-- Mounts a first panel on a remote side. -/
def new (r : ρ) (visible : Bool) : Session ρ :=
  { remote := some r, held := true, component := some (.new 0 visible), pool := some .empty, mounts := 1 }

/-! ### Lifecycle -/

/-- Lets the remote side go if nobody keeps it. -/
def release (s : Session ρ) : Session ρ :=
  match s.remote with
  | some r =>
    if s.held || s.component.isSome then s
    else { s with remote := none, pool := s.pool.map (·.deliverAll (Delivery.lost (RemoteSide.outstanding r))) }
  | none => s

/-- The panel goes away; its reads stay in the pool. -/
def unmount (s : Session ρ) : Session ρ := release { s with component := none }

/-- The pool goes away with its tasks. -/
def dropPool (s : Session ρ) : Session ρ := { s with pool := none }

/-- The holder of the session lets the remote side go. -/
def forgetRemote (s : Session ρ) : Session ρ := release { s with held := false }

/-- Mounts a new panel on the held remote side, with a pool of its own, in place of the one before.  If the remote side
is not held, the panel only goes away. -/
def mount (s : Session ρ) (visible : Bool) : Session ρ :=
  if s.held then
    { s with component := some (.new s.mounts visible), pool := some .empty, mounts := s.mounts + 1 }
  else s.unmount

/-! ### Steps of the panel -/

/-- Does something with the mounted panel and the remote side; `none` if no panel is mounted. -/
def withPanel {α : Type} (s : Session ρ) (f : Component → ρ → Logged (Component × ρ × α)) :
    Logged (Session ρ × Option α) :=
  match s.component, s.remote with
  | some c, some r => do
    let (c, r, a) ← f c r
    return ({ s with component := some c, remote := some r }, some a)
  | _, _ => return (s, none)

/-- Starts a read of every field.  Without a pool it fails, but only after the first field was read. -/
def readAll (s : Session ρ) : Logged (Session ρ × Option (Except PoolClosed Unit)) :=
  match s.component, s.remote with
  | some c, some r =>
    match s.pool with
    | some p => do
      let (r, p) ← c.readAll r p
      return ({ s with remote := some r, pool := some p }, some (.ok ()))
    | none => do
      let (r, _) ← RemoteSide.read r .posX
      return ({ s with remote := some r }, some (.error ⟨⟩))
  | _, _ => return (s, none)

/-- Runs the pool, if there is one. -/
def run (s : Session ρ) : Logged (Session ρ) :=
  match s.pool with
  | some p =>
    let (p, finished) := p.run
    match s.component with
    | some c => do
      let c ← c.takeAll finished
      return { s with component := some c, pool := some p }
    | none => do
      Component.discardAll finished
      return { s with pool := some p }
  | none => return s

/-- Applies the reads taken over, and writes the changed fields; also how many there were. -/
def digest (s : Session ρ) : Logged (Session ρ × Option Nat) := s.withPanel fun c r => c.digest r

/-- Runs the pool and then digests, if a panel is mounted. -/
def frame (s : Session ρ) : Logged (Session ρ × Option Nat) :=
  match s.component with
  | some _ => do digest (← s.run)
  | none => return (s, none)

/-- A local edit. -/
def edit (s : Session ρ) (k : Field) (value : Option Double) : Logged (Session ρ × Option Unit) :=
  s.withPanel fun c r => return (c.edit k value, r, ())

/-- Restores the default offsets on both sides. -/
def reset (s : Session ρ) : Logged (Session ρ × Option Unit) :=
  s.withPanel fun c r => do
    let (c, r) ← c.reset r
    return (c, r, ())

/-- Shows a hidden panel or hides a shown one; also whether it is shown now. -/
def toggle (s : Session ρ) : Logged (Session ρ × Option Bool) :=
  s.withPanel fun c r => do
    let c ← c.toggle
    return (c, r, c.settings.visible)

/-- Writes a value of a field as if it had changed; also whether there was a write. -/
def pushChange (s : Session ρ) (k : Field) (value : Option Double) : Logged (Session ρ × Option Bool) :=
  s.withPanel fun c r => do
    let (r, written) ← writeChanged r k value
    return (c, r, written)

/-! ### Steps of the remote side -/

/-- Does something with the remote side, and delivers the answers that come of it. -/
def onRemote {α : Type} (s : Session ρ) (f : ρ → Logged (ρ × List (Delivery Answer) × α)) :
    Logged (Session ρ × Option α) :=
  match s.remote with
  | some r => do
    let (r, deliveries, a) ← f r
    return ({ s with remote := some r, pool := s.pool.map (·.deliverAll deliveries) }, some a)
  | none => return (s, none)

end Session

end CameraPanel
