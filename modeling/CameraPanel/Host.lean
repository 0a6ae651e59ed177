import CameraPanel.Config.Options
import CameraPanel.Host.Keyboard
import CameraPanel.Host.Line
import CameraPanel.Remote.Engine
import CameraPanel.Sync.Component

/-!
# The host

The host is the program around a panel: the engine, the mounted panel with its pool, the selected field, and a count
of frames.  Each frame lets the engine reply once its delay is over, runs the pool, and digests.
-/

namespace CameraPanel

structure Host where
  engine : Engine
  component : Component
  pool : Pool
  selected : Field
  /-- How far one step of a nudge goes. -/
  step : Double
  /-- The number of the frame from which on the engine replies. -/
  delay : Nat
  /-- The number of frames so far. -/
  frame : Nat

/-- One millionth of a unit is the finest step that nudging keeps. -/
def nudgeGrid : Double := .ofInt 1000000

/-- Moves a value by a number of steps, and rounds it to millionths. -/
def nudged (value : Double) (steps : Int) (step : Double) : Double :=
  ((value + .ofInt steps * step) * nudgeGrid).roundWhole / nudgeGrid

namespace Host

/-- Mounts a panel on an engine, and starts its reads. -/
def new (o : Options) : Logged Host := do
  let delay := o.bridge.replyDelayFrames.toNat
  let engine := Engine.new (.ofOffsets o.bridge.seed) (decide (0 < delay))
  let component := Component.new 0 o.panel.startVisible
  let (engine, pool) ← component.readAll engine .empty
  return { engine, component, pool, selected := .posX, step := o.panel.nudgeStep, delay, frame := 0 }

/-- Lets the engine reply to what it held back, once its delay is over. -/
def reply (h : Host) : Logged Host :=
  if h.delay ≤ h.frame then do
    let (engine, replies) := h.engine.flush
    if 0 < replies.length then Logged.note (.readsAnswered replies.length h.frame)
    return { h with engine, pool := h.pool.deliverAll (replies.map (·.map answerOfReply)) }
  else return h

/-- One frame; also the number of writes. -/
def update (h : Host) : Logged (Host × Nat) := do
  let h ← reply { h with frame := h.frame + 1 }
  let (pool, finished) := h.pool.run
  let component ← h.component.takeAll finished
  let (component, engine, writes) ← component.digest h.engine
  return ({ h with engine, component, pool }, writes)

/-- Some frames; also the number of writes in all of them. -/
def updates : Nat → Host → Logged (Host × Nat)
  | 0, h => return (h, 0)
  | n + 1, h => do
    let (h, writes) ← h.update
    let (h, more) ← updates n h
    return (h, writes + more)

/-- The current value of a field. -/
def field (h : Host) (k : Field) : Option Double := h.component.settings.field k

/-- Does what the user asks for.  To end the program is left to the caller. -/
def apply (h : Host) : Action → Logged Host
  | .select k => return { h with selected := k }
  | .nudge steps =>
    let value := nudged ((h.field h.selected).getD h.selected.default) steps h.step
    return { h with component := h.component.edit h.selected (some value) }
  | .clear => return { h with component := h.component.edit h.selected none }
  | .reset => do
    let (component, engine) ← h.component.reset h.engine
    return { h with component, engine }
  | .toggle => do return { h with component := ← h.component.toggle }
  | .exit => return h

def visible (h : Host) : Bool := h.component.settings.visible

/-- A key event: what it asks for, done. -/
def press (h : Host) (key : Key) (pressed : Bool) : Logged (Host × Option Action) :=
  match key.action? pressed h.visible with
  | some action => do return (← h.apply action, some action)
  | none => return (h, none)

/-- The line that shows the panel. -/
def line (h : Host) : String := Line.text h.component.settings.values h.selected

end Host

end CameraPanel
