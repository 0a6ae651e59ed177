import CameraPanel.Proofs.Panel
import CameraPanel.Sync.Session

/-!
# Steps of a session

A run of a session is a list of steps.  What the remote side does on its own is a step too: `act` says how each such
step changes it and which answers it delivers, so that a statement for every `act` holds whatever is answered to a
read, and whenever.  The pool may run as a whole or finish any one task that has its answer (`Pool.finish`), so the
reads complete in any order.

For the mounted panel each step is one event (`Session.event`), and `step_linked` says that nothing else happens to it.
-/

namespace CameraPanel

/-- Finishes only the task in place `n` of those that are ready to run, if it has its answer. -/
def Pool.finish (p : Pool) (n : Nat) : Pool × List FinishedRead :=
  match (p.woken ++ p.started)[n]?.bind ReadTask.finished? with
  | some f =>
    if n < p.woken.length then ({ p with woken := p.woken.eraseIdx n }, [f])
    else ({ p with started := p.started.eraseIdx (n - p.woken.length) }, [f])
  | none => (p, [])

namespace Session

variable {ρ ε : Type} [RemoteSide ρ]

/-! ### Steps -/

/-- A step of a session.  On its own the remote side does steps `ε`. -/
inductive Step (ε : Type) where
  | readAll
  | run
  | finish (n : Nat)
  | edit (k : Field) (value : Option Double)
  | reset
  | toggle
  | digest
  | remote (e : ε)

/-- Hands finished reads over to the panel; without a panel they are discarded. -/
def handOver (s : Session ρ) (p : Pool) (finished : List FinishedRead) : Session ρ :=
  { s with component := s.component.map fun c => (c.takeAll finished).value, pool := some p }

/-- Finishes one task of the pool, if there is a pool. -/
def finish (s : Session ρ) (n : Nat) : Session ρ :=
  match s.pool with
  | some p => s.handOver (p.finish n).1 (p.finish n).2
  | none => s

variable (act : ε → ρ → ρ × List (Delivery Answer))

def step (s : Session ρ) : Step ε → Session ρ
  | .readAll => s.readAll.value.1
  | .run => s.run.value
  | .finish n => s.finish n
  | .edit k value => (s.edit k value).value.1
  | .reset => s.reset.value.1
  | .toggle => s.toggle.value.1
  | .digest => s.digest.value.1
  | .remote e => (s.onRemote fun r => return ((act e r).1, (act e r).2, ())).value.1

def play (s : Session ρ) (steps : List (Step ε)) : Session ρ := steps.foldl (step act) s

@[simp] theorem play_nil (s : Session ρ) : s.play act [] = s := rfl

theorem play_cons (s : Session ρ) (st : Step ε) (steps : List (Step ε)) :
    s.play act (st :: steps) = (s.step act st).play act steps := rfl

theorem play_append (s : Session ρ) (steps later : List (Step ε)) :
    s.play act (steps ++ later) = (s.play act steps).play act later := List.foldl_append

theorem play_concat (s : Session ρ) (steps : List (Step ε)) (st : Step ε) :
    s.play act (steps ++ [st]) = (s.play act steps).step act st := play_append act s steps [st]

/-! ### A session with a remote side and a pool -/

/-- The session of a panel, or of none, with a held remote side and a pool. -/
def linked (component : Option Component) (r : ρ) (p : Pool) (mounts : Nat) : Session ρ :=
  ⟨some r, true, component, some p, mounts⟩

omit [RemoteSide ρ] in
private theorem run_linked (component : Option Component) (r : ρ) (p : Pool) (mounts : Nat) :
    (linked component r p mounts).run.value =
      linked (component.map fun c => (c.takeAll p.run.2).value) r p.run.1 mounts := by
  cases component <;> rfl

/-! ### Events -/

/-- The results that a run of the pool brings to the panel. -/
def arriving (s : Session ρ) (run : Pool → Pool × List FinishedRead) : List (Field × Option Double) :=
  match s.component, s.pool with
  | some c, some p => arrivals c.mount (run p).2
  | _, _ => []

/-- What a step is for the panel. -/
def event (s : Session ρ) : Step ε → PanelEvent
  | .readAll => .arrived []
  | .run => .arrived (s.arriving Pool.run)
  | .finish n => .arrived (s.arriving fun p => p.finish n)
  | .edit k value => .edited k value
  | .reset => .reset
  | .toggle => .toggled
  | .digest => .digested
  | .remote _ => .arrived []

def events (s : Session ρ) : List (Step ε) → List PanelEvent
  | [] => []
  | st :: rest => s.event st :: events (s.step act st) rest

/-- The remote side and the pool after a step of a session with the panel `c`. -/
def moved (c : Component) (r : ρ) (p : Pool) : Step ε → ρ × Pool
  | .readAll => (c.readAll r p).value
  | .run => (r, p.run.1)
  | .finish n => (r, (p.finish n).1)
  | .reset => (sendAll r (c.settings.sends .reset), p)
  | .digest => (sendAll r (c.settings.sends .digested), p)
  | .remote e => ((act e r).1, p.deliverAll (act e r).2)
  | .edit _ _ | .toggle => (r, p)

/-- A step does to a mounted panel what its event says. -/
theorem step_linked (c : Component) (r : ρ) (p : Pool) (mounts : Nat) (st : Step ε) :
    (linked (some c) r p mounts).step act st =
      linked (some { c with settings := c.settings.after ((linked (some c) r p mounts).event st) })
        (moved act c r p st).1 (moved act c r p st).2 mounts := by
  cases st with
  | readAll =>
    simp only [event, Settings.after, List.append_nil]
    rfl
  | run =>
    show (linked (some c) r p mounts).run.value = _
    rw [run_linked, Option.map_some, Component.takeAll_value]
    rfl
  | finish n =>
    show (linked (some c) r p mounts).handOver (p.finish n).1 (p.finish n).2 = _
    simp only [handOver, linked, Option.map_some, Component.takeAll_value]
    rfl
  | digest =>
    show linked (some (c.digest r).value.1) (c.digest r).value.2.1 p mounts = _
    rw [Component.digest_value]
    rfl
  | remote e =>
    simp only [event, Settings.after, List.append_nil]
    rfl
  | _ => rfl

/-- A panel is mounted on a held remote side and has a pool. -/
def Mounted (s : Session ρ) : Prop :=
  ∃ (c : Component) (r : ρ) (p : Pool) (mounts : Nat), s = linked (some c) r p mounts ∧ c.settings.OfPanel

omit [RemoteSide ρ] in
theorem mounted_new (r : ρ) (visible : Bool) : (Session.new r visible).Mounted :=
  ⟨.new 0 visible, r, .empty, 1, rfl, Component.ofPanel_new 0 visible⟩

theorem Mounted.step {s : Session ρ} (h : s.Mounted) (st : Step ε) : (s.step act st).Mounted := by
  obtain ⟨c, r, p, mounts, rfl, hc⟩ := h
  exact ⟨_, _, _, mounts, step_linked act c r p mounts st, hc.after _⟩

theorem Mounted.play {s : Session ρ} (h : s.Mounted) (steps : List (Step ε)) : (s.play act steps).Mounted := by
  induction steps generalizing s with
  | nil => exact h
  | cons st rest ih => exact ih (h.step act st)

/-! ### Lifecycles -/

/-- Mounts a new panel in place of the one before.  The pool stays, and may still hold reads of earlier panels. -/
def remount (s : Session ρ) (visible : Bool) : Session ρ :=
  if s.held then { s with component := some (.new s.mounts visible), mounts := s.mounts + 1 } else s.unmount

/-- A step in the life of panels that are mounted one after the other on the same remote side. -/
inductive LifeStep (ε : Type) where
  | panel (st : Step ε)
  | unmount
  /-- Mounts a new panel with a pool of its own. -/
  | mount (visible : Bool)
  | remount (visible : Bool)

def lifeStep (s : Session ρ) : LifeStep ε → Session ρ
  | .panel st => s.step act st
  | .unmount => s.unmount
  | .mount visible => s.mount visible
  | .remount visible => s.remount visible

def live (s : Session ρ) (steps : List (LifeStep ε)) : Session ρ := steps.foldl (lifeStep act) s

end Session

end CameraPanel
