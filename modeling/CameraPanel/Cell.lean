import CameraPanel.Number.Binary

/-!
# Cells

A cell holds the current value of a field together with its *baseline*: the value that both sides last agreed on.
Until it is hydrated, by the first read from the remote side or by a write that was already sent, a cell reports
nothing.  From then on `observe` reports a current value that differs from the baseline, and makes it the baseline.
Values are compared with `Binary.same`, so not-a-number does not differ from itself.
-/

namespace CameraPanel

variable {F : Format}

/-- `Binary.same` on values that may be missing. -/
def sameValue : Option (Binary F) → Option (Binary F) → Bool
  | some a, some b => a.same b
  | none, none => true
  | _, _ => false

/-- A reported change: the baseline before, and the value after. -/
structure Change (F : Format) where
  old : Option (Binary F)
  new : Binary F
deriving DecidableEq

structure Cell (F : Format) where
  current : Option (Binary F)
  baseline : Option (Binary F)
  hydrated : Bool
deriving DecidableEq

namespace Cell

/-- A cell that nothing was written to. -/
def new : Cell F := ⟨none, none, false⟩

/-- A local edit. -/
def assign (c : Cell F) (value : Option (Binary F)) : Cell F := { c with current := value }

/-- Whether a local edit changes the current value. -/
def changes (c : Cell F) (value : Option (Binary F)) : Bool := !sameValue c.current value

/-- Takes over a value that was read from the remote side.  Only the first one counts. -/
def hydrate (c : Cell F) (value : Option (Binary F)) : Cell F :=
  if c.hydrated then c else ⟨value, value, true⟩

/-- A local edit that was already written to the remote side. -/
def assignSynced (_ : Cell F) (value : Binary F) : Cell F := ⟨some value, some value, true⟩

/-- The change to report, if any: a hydrated cell with a value that differs from its baseline. -/
def change? (c : Cell F) : Option (Change F) :=
  if c.hydrated then
    match c.current with
    | some v => if sameValue c.baseline (some v) then none else some ⟨c.baseline, v⟩
    | none => none
  else none

/-- The cell after its change was reported. -/
def observe (c : Cell F) : Cell F :=
  match c.change? with
  | some change => { c with baseline := some change.new }
  | none => c

/-- Numeric equality of values that may be missing. -/
def eqValue : Option (Binary F) → Option (Binary F) → Bool
  | some a, some b => a.eq b
  | none, none => true
  | _, _ => false

/-- Numeric equality of two cells. -/
def eq (c d : Cell F) : Bool :=
  eqValue c.current d.current && eqValue c.baseline d.baseline && c.hydrated == d.hydrated

end Cell

end CameraPanel
