/-!
# Watchers

Watchers are kept in numbered slots.  A handle names a slot and the version of its use.  A slot starts with version
one; its version grows by one when its watcher goes and by one more when the next one comes, so an old handle never
fits a later watcher.  The slot that became free last is used first.  The null handle has the greatest number of 32
bits; there are never so many watchers that a slot gets it.
-/

namespace CameraPanel

/-- The place of a watcher.  Slots count from one. -/
structure Handle where
  slot : Nat
  version : Nat
deriving DecidableEq

namespace Handle

/-- The handle of no watcher. -/
def null : Handle := ⟨4294967295, 1⟩

def text (h : Handle) : String := "WatcherKey(" ++ toString h.slot ++ "v" ++ toString h.version ++ ")"

end Handle

/-- A slot, with the target and the label of its watcher if it has one. -/
structure Slot (τ α : Type) where
  version : Nat
  watcher : Option (τ × α)

/-- The watchers of targets `τ`, each with a label `α`. -/
structure Watchers (τ α : Type) where
  slots : List (Slot τ α)
  /-- The numbers of the free slots, the one that became free last in front. -/
  free : List Nat

namespace Watchers

variable {τ α : Type}

def empty : Watchers τ α := ⟨[], []⟩

/-- The slot with a number. -/
def slot? (w : Watchers τ α) (n : Nat) : Option (Slot τ α) := if n = 0 then none else w.slots[n - 1]?

/-- The watcher that a handle names. -/
def get? (w : Watchers τ α) (h : Handle) : Option (τ × α) :=
  match w.slot? h.slot with
  | some s => if s.version = h.version then s.watcher else none
  | none => none

/-- The watchers that are there, in the order of their slots. -/
def toList (w : Watchers τ α) : List (τ × α) := w.slots.filterMap (·.watcher)

def size (w : Watchers τ α) : Nat := w.toList.length

/-- The most watchers that there can be. -/
def capacity : Nat := 4294967294

/-- Puts a watcher into the slot that became free last, or into a new one. -/
def add (w : Watchers τ α) (target : τ) (label : α) : Watchers τ α × Handle :=
  match w.free with
  | n :: free =>
    let version := ((w.slot? n).map (·.version)).getD 0 + 1
    (⟨w.slots.set (n - 1) ⟨version, some (target, label)⟩, free⟩, ⟨n, version⟩)
  | [] => (⟨w.slots ++ [⟨1, some (target, label)⟩], []⟩, ⟨w.slots.length + 1, 1⟩)

/-- Adds a watcher, unless there are as many as there can be. -/
def watch (w : Watchers τ α) (target : τ) (label : α) : Watchers τ α × Option Handle :=
  if w.size = capacity then (w, none)
  else
    let (watchers, handle) := w.add target label
    (watchers, some handle)

/-- Removes the watcher that a handle names, and tells whether there was one. -/
def unwatch (w : Watchers τ α) (h : Handle) : Watchers τ α × Bool :=
  match w.get? h with
  | some _ => (⟨w.slots.set (h.slot - 1) ⟨h.version + 1, none⟩, h.slot :: w.free⟩, true)
  | none => (w, false)

/-- The labels of the watchers of a target, in the order of their slots. -/
def labels [DecidableEq τ] (w : Watchers τ α) (target : τ) : List α :=
  (w.toList.filter fun (t, _) => t = target).map (·.2)

/-- The calls of the watchers of a target, in the order of their slots: each is told the target and the change. -/
def notify {κ : Type} [DecidableEq τ] (w : Watchers τ α) (target : τ) (change : κ) : List (α × τ × κ) :=
  (w.labels target).map fun a => (a, target, change)

end Watchers

end CameraPanel
