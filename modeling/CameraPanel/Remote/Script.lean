import CameraPanel.Remote.Side

/-!
# Scripted replies

A script runs no commands.  It replies to the chunks in turn with what it was given beforehand, and with nothing once
that is used up; a reply may also never come.  It keeps the chunks that it saw.
-/

namespace CameraPanel

/-- A prepared reply. -/
inductive ScriptedReply where
  | reply (r : ChunkReply)
  | never

/-- How a chunk came in. -/
inductive ChunkCall where
  | execute
  | send
deriving DecidableEq

structure Script where
  replies : List ScriptedReply
  /-- The chunks so far, oldest first. -/
  calls : List (ChunkCall × String)
  nextTicket : Nat

namespace Script

def new (replies : List ScriptedReply) : Script := ⟨replies, [], 0⟩

def execute (s : Script) (chunk : String) : Script × Reading ChunkReply :=
  let s' := { s with
    replies := s.replies.tail, calls := s.calls ++ [(.execute, chunk)], nextTicket := s.nextTicket + 1 }
  match s.replies.head? with
  | none => (s', .now (.ok Reply.nothing))
  | some (.reply r) => (s', .now r)
  | some .never => (s', .later s.nextTicket)

def send (s : Script) (chunk : String) : Logged Script := return { s with calls := s.calls ++ [(.send, chunk)] }

end Script

/-- A reply that never comes has nobody who could give up on it, so nothing is outstanding. -/
instance : ChunkRunner Script where
  execute := Script.execute
  send := Script.send
  outstanding _ := []

end CameraPanel
