import CameraPanel.Field
import CameraPanel.Remote.Error

/-!
# Notices

Everything that is worth a line in the log is a notice.  An operation that gives notices returns them beside its
result, oldest first: `Logged α` is a result with its notices.
-/

namespace CameraPanel

inductive Level where
  | error
  | warn
  | info
  | debug
  | trace
deriving DecidableEq

def Level.text : Level → String
  | error => "ERROR"
  | warn => "WARN"
  | info => "INFO"
  | debug => "DEBUG"
  | trace => "TRACE"

inductive Notice where
  /-- The store was asked for a field. -/
  | storeRead (field : Field)
  /-- The store was given a value. -/
  | storeWrite (field : Field) (value : Double)
  /-- A chunk went to the engine. -/
  | chunkSent (chunk : String)
  /-- The engine refused a chunk that nobody waits for. -/
  | chunkRejected (chunk : String) (error : RemoteError)
  /-- A changed field is about to be written. -/
  | writing (field : Field) (value : Double)
  /-- A field without a value is not written. -/
  | unsetIgnored (field : Field)
  /-- Reads of all fields were started. -/
  | readsDispatched (count : Nat)
  /-- A read had no answer. -/
  | readFailed (field : Field) (error : RemoteError)
  /-- The result of a read was taken over. -/
  | readTaken (field : Field) (value : Option Double)
  /-- The result of a read came after its panel was gone. -/
  | readDiscarded (field : Field)
  /-- The result of a read came after the field had a value of its own. -/
  | readStale (field : Field)
  /-- All fields were reset. -/
  | offsetsReset
  /-- The panel was shown or hidden. -/
  | panelToggled (visible : Bool)
  /-- The engine answered the reads that it had held back. -/
  | readsAnswered (count frame : Nat)
deriving DecidableEq

namespace Notice

/-- Values in notices always have a point, and an exponent below a ten-thousandth and from ten to the sixteenth. -/
def valueLayout : Layout where
  tie := .up
  writtenOut := fun e => -4 ≤ e && e ≤ 15
  wholePoint := true
  plusExponent := false

/-- A value that may be missing. -/
def valueText : Option Double → String
  | none => "None"
  | some x => "Some(" ++ valueLayout.text x ++ ")"

def level : Notice → Level
  | chunkRejected _ _ | readFailed _ _ => .warn
  | offsetsReset | panelToggled _ => .info
  | unsetIgnored _ => .trace
  | _ => .debug

def text : Notice → String
  | storeRead k => "memory store: read " ++ k.name
  | storeWrite k v => "memory store: write " ++ k.name ++ " = " ++ v.text
  | chunkSent chunk => "engine <- " ++ chunk
  | chunkRejected chunk e => "Engine rejected " ++ chunk ++ ": " ++ e.message
  | writing k v => "Writing " ++ k.name ++ " = " ++ v.text
  | unsetIgnored k => "Ignoring unset value for " ++ k.name
  | readsDispatched n => "Dispatched " ++ toString n ++ " hydration reads"
  | readFailed k e => "Failed to read " ++ k.name ++ ": " ++ e.message
  | readTaken k v => "Hydrated " ++ k.name ++ " = " ++ valueText v
  | readDiscarded k => "Discarding read of " ++ k.name ++ ": settings unmounted"
  | readStale k => "Dropped stale read for " ++ k.name
  | offsetsReset => "Camera offsets reset to defaults"
  | panelToggled visible => "Settings panel " ++ if visible then "shown" else "hidden"
  | readsAnswered n frame => "Engine answered " ++ toString n ++ " reads on frame " ++ toString frame

/-- The line in the log. -/
def line (n : Notice) : String := n.level.text ++ " " ++ n.text

end Notice

/-- A result with the notices given on the way to it. -/
structure Logged (α : Type) where
  value : α
  notices : List Notice

namespace Logged

variable {α β : Type}

instance : Monad Logged where
  pure a := ⟨a, []⟩
  bind x f := ⟨(f x.value).value, x.notices ++ (f x.value).notices⟩

/-- Gives one notice. -/
def note (n : Notice) : Logged Unit := ⟨(), [n]⟩

@[simp] theorem value_pure (a : α) : (pure a : Logged α).value = a := rfl

@[simp] theorem notices_pure (a : α) : (pure a : Logged α).notices = [] := rfl

@[simp] theorem value_bind (x : Logged α) (f : α → Logged β) : (x >>= f).value = (f x.value).value := rfl

@[simp] theorem value_map (f : α → β) (x : Logged α) : (f <$> x).value = f x.value := rfl

@[simp] theorem notices_bind (x : Logged α) (f : α → Logged β) :
    (x >>= f).notices = x.notices ++ (f x.value).notices := rfl

instance : LawfulMonad Logged :=
  LawfulMonad.mk' _
    (fun x => by simp [Functor.map])
    (fun a f => by simp [bind, pure])
    (fun x f g => by simp [bind])

end Logged

end CameraPanel
