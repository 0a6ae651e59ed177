import CameraPanel.Remote.Side

/-!
# The engine

The engine keeps a table of settings and runs the commands that it is sent.  It replies at once until it is told to
defer its replies; from then on a chunk that somebody waits for is held back, and `flush` runs the chunks that were
held back and replies to them.  Chunks sent for their effect are always run at once.
-/

namespace CameraPanel

/-- Settings by name. -/
structure SettingTable where
  entries : List (String × Double)
deriving DecidableEq

namespace SettingTable

def empty : SettingTable := ⟨[]⟩

def get? (t : SettingTable) (name : String) : Option Double :=
  (t.entries.find? fun (key, _) => key = name).map (·.2)

/-- Sets the value of a name. -/
def insert (t : SettingTable) (name : String) (v : Double) : SettingTable :=
  ⟨(name, v) :: t.entries.filter fun (key, _) => key ≠ name⟩

/-- The table of six offsets. -/
def ofOffsets (offsets : Offsets) : SettingTable :=
  offsets.entries.foldl (fun t (k, v) => t.insert k.name v) empty

theorem get?_insert_self (t : SettingTable) (name : String) (v : Double) : (t.insert name v).get? name = some v := by
  simp [insert, get?]

theorem get?_insert_of_ne (t : SettingTable) {name other : String} (v : Double) (h : other ≠ name) :
    (t.insert name v).get? other = t.get? other := by
  have hname : ¬name = other := fun e => h e.symm
  simp only [insert, get?, List.find?_cons, hname, decide_false, List.find?_filter]
  congr 2
  funext x
  by_cases hx : x.1 = other
  · simp [hx, h]
  · simp [hx]

end SettingTable

structure Engine where
  settings : SettingTable
  /-- All chunks received, oldest first. -/
  history : List String
  deferred : Bool
  /-- The chunks held back, with their tickets, oldest first. -/
  queued : List (String × Nat)
  /-- The next ticket. -/
  nextTicket : Nat

namespace Engine

/-- An engine with a table of settings. -/
def new (settings : SettingTable) (deferred : Bool) : Engine := ⟨settings, [], deferred, [], 0⟩

def setting (e : Engine) (name : String) : Option Double := e.settings.get? name

/-- Replies are held back from now on. -/
def defer (e : Engine) : Engine := { e with deferred := true }

/-- The table after a chunk, and the reply. -/
def run (t : SettingTable) (chunk : String) : SettingTable × ChunkReply :=
  match Command.parse chunk with
  | .ok (.get key) => (t, .ok (((t.get? key).map Reply.encode).getD Reply.nothing))
  | .ok (.set key v) => (t.insert key v, .ok Reply.nothing)
  | .error e => (t, .error (.transport e.message))

/-- Runs a chunk for its reply, or holds it back. -/
def execute (e : Engine) (chunk : String) : Engine × Reading ChunkReply :=
  let ticket := e.nextTicket
  let e := { e with history := e.history ++ [chunk], nextTicket := ticket + 1 }
  if e.deferred then ({ e with queued := e.queued ++ [(chunk, ticket)] }, .later ticket)
  else
    let (settings, reply) := run e.settings chunk
    ({ e with settings }, .now reply)

/-- Runs a chunk for its effect; that a chunk was refused is only noted. -/
def send (e : Engine) (chunk : String) : Logged Engine :=
  let e := { e with history := e.history ++ [chunk] }
  match run e.settings chunk with
  | (settings, .ok _) => return { e with settings }
  | (settings, .error error) => do
    Logged.note (.chunkRejected chunk error)
    return { e with settings }

/-- Runs the chunks held back, in order; also the replies. -/
def runQueued (t : SettingTable) : List (String × Nat) → SettingTable × List (Delivery ChunkReply)
  | [] => (t, [])
  | (chunk, ticket) :: rest =>
    let (t, reply) := run t chunk
    let (t, replies) := runQueued t rest
    (t, ⟨ticket, reply⟩ :: replies)

/-- Runs all chunks that were held back. -/
def flush (e : Engine) : Engine × List (Delivery ChunkReply) :=
  let (settings, replies) := runQueued e.settings e.queued
  ({ e with settings, queued := [] }, replies)

/-- The tickets of the chunks held back, oldest first. -/
def outstanding (e : Engine) : List Nat := e.queued.map (·.2)

end Engine

instance : ChunkRunner Engine where
  execute := Engine.execute
  send := Engine.send
  outstanding := Engine.outstanding

end CameraPanel
