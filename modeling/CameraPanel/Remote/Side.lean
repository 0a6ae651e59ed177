import CameraPanel.Remote.Command
import CameraPanel.Remote.Reading
import CameraPanel.Remote.Reply
import CameraPanel.Remote.Store

/-!
# The remote side

A panel sees the remote side as something that starts reads and takes writes.  The store in memory is one.  Another is
anything that runs chunks: reads and writes go to it as commands, and the replies are decoded.
-/

namespace CameraPanel

/-- What a panel asks of the remote side. -/
class RemoteSide (ρ : Type) where
  /-- Starts a read. -/
  read : ρ → Field → Logged (ρ × Reading Answer)
  /-- Writes a value; nobody hears whether it arrived. -/
  write : ρ → Field → Double → Logged ρ
  /-- The tickets of the reads that wait for an answer, oldest first. -/
  outstanding : ρ → List Nat

instance : RemoteSide Store where
  read := Store.read
  write := Store.write
  outstanding := Store.outstanding

/-- The reply to a chunk. -/
abbrev ChunkReply := Except RemoteError String

/-- Something that runs chunks. -/
class ChunkRunner (τ : Type) where
  /-- Runs a chunk for its reply. -/
  execute : τ → String → τ × Reading ChunkReply
  /-- Runs a chunk for its effect. -/
  send : τ → String → Logged τ
  /-- The tickets of the chunks that wait for a reply, oldest first. -/
  outstanding : τ → List Nat

/-- The answer in the reply to a chunk. -/
def answerOfReply (r : ChunkReply) : Answer := r.bind Reply.decode

instance {τ : Type} [ChunkRunner τ] : RemoteSide τ where
  read t k := do
    let chunk := (Command.get k.name).text
    Logged.note (.chunkSent chunk)
    let (t, reply) := ChunkRunner.execute t chunk
    return (t, reply.map answerOfReply)
  write t k v := do
    let chunk := (Command.set k.name v).text
    Logged.note (.chunkSent chunk)
    ChunkRunner.send t chunk
  outstanding := ChunkRunner.outstanding

/-- Writes a field that changed; a field without a value is not written.  Also whether there was a write. -/
def writeChanged {ρ : Type} [RemoteSide ρ] (r : ρ) (k : Field) : Option Double → Logged (ρ × Bool)
  | some v => do
    Logged.note (.writing k v)
    return (← RemoteSide.write r k v, true)
  | none => do
    Logged.note (.unsetIgnored k)
    return (r, false)

end CameraPanel
