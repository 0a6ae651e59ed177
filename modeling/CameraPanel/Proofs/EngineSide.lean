import CameraPanel.Proofs.Chunks
import CameraPanel.Proofs.Panel
import CameraPanel.Remote.Engine

/-!
# The engine as a remote side

Behind its chunks the engine does what a store does: the chunk of a read leaves the settings as they are and the reply
tells the value held when it runs (`run_readChunk`), and the chunk of a write sets the value (`run_writeChunk`).  So a
write sets one setting and adds one chunk to the history (`write_value`), and to flush reads that were held back changes
no setting (`flush_of_reads`).
-/

namespace CameraPanel

theorem Field.name_injective : Function.Injective name := by
  intro j k h
  have hnames : ofName? j.name = ofName? k.name := congrArg ofName? h
  rw [ofName?_name, ofName?_name] at hnames
  exact Option.some.inj hnames

theorem SettingTable.get?_insert_name (t : SettingTable) (j k : Field) (v : Double) :
    (t.insert j.name v).get? k.name = if k = j then some v else t.get? k.name := by
  by_cases hk : k = j
  · rw [if_pos hk, hk, get?_insert_self]
  · rw [if_neg hk, get?_insert_of_ne _ _ (Field.name_injective.ne hk)]

theorem SettingTable.get?_ofOffsets (offsets : Offsets) (k : Field) :
    (ofOffsets offsets).get? k.name = some (offsets.get k) := by
  simp only [ofOffsets, PerField.entries, Field.all, List.map_cons, List.map_nil, List.foldl_cons, List.foldl_nil,
    get?_insert_name]
  cases k <;> rfl

/-- The chunk that reads a field. -/
def readChunk (k : Field) : String := (Command.get k.name).text

/-- The chunk that writes a field. -/
def writeChunk (w : Field × Double) : String := (Command.set w.1.name w.2).text

theorem parse_readChunk (k : Field) : Command.parse (readChunk k) = .ok (.get k.name) := Command.parse_get_field k

theorem parse_writeChunk (w : Field × Double) : Command.parse (writeChunk w) = .ok (.set w.1.name w.2) :=
  Command.parse_set_field w.1 w.2

/-- What a remote side is told from outside. -/
inductive Occasion where
  /-- Answers are held back from now on. -/
  | defer
  /-- All that was held back is answered. -/
  | answerAll

namespace Engine

/-! ### Chunks about fields -/

/-- The reply to a read of a setting. -/
def replyFor (t : SettingTable) (k : Field) : String := ((t.get? k.name).map Reply.encode).getD Reply.nothing

theorem run_readChunk (t : SettingTable) (k : Field) : run t (readChunk k) = (t, .ok (replyFor t k)) := by
  rw [run, parse_readChunk]
  rfl

theorem run_writeChunk (t : SettingTable) (w : Field × Double) :
    run t (writeChunk w) = (t.insert w.1.name w.2, .ok Reply.nothing) := by
  rw [run, parse_writeChunk]

theorem answerOfReply_replyFor (t : SettingTable) (k : Field) :
    answerOfReply (.ok (replyFor t k)) =
      ((t.get? k.name).map fun v => Reply.decode (Reply.encode v)).getD (.ok none) := by
  unfold replyFor
  cases t.get? k.name <;> rfl

/-- The chunk of a read that is held back under its ticket. -/
def heldRead (p : Field × Nat) : String × Nat := (readChunk p.1, p.2)

private theorem runQueued_reads (t : SettingTable) (reads : List (Field × Nat)) :
    runQueued t (reads.map heldRead) = (t, reads.map fun p => ⟨p.2, .ok (replyFor t p.1)⟩) := by
  induction reads with
  | nil => rfl
  | cons p rest ih =>
    -- The first read leaves the table as it is for the others.
    rw [List.map_cons, heldRead, runQueued, run_readChunk]
    simp only [ih, List.map_cons]

/-! ### Reads, writes and answers -/

theorem read_of_deferred {e : Engine} (h : e.deferred = true) (k : Field) :
    (RemoteSide.read e k).value =
      ({ e with
          history := e.history ++ [readChunk k]
          nextTicket := e.nextTicket + 1
          queued := e.queued ++ [heldRead (k, e.nextTicket)] }, .later e.nextTicket) := by
  show ((execute e (readChunk k)).1, (execute e (readChunk k)).2.map answerOfReply) = _
  simp [execute, h, Reading.map, heldRead]

theorem read_of_not_deferred {e : Engine} (h : e.deferred = false) (k : Field) :
    (RemoteSide.read e k).value =
      ({ e with history := e.history ++ [readChunk k], nextTicket := e.nextTicket + 1 },
        .now (answerOfReply (.ok (replyFor e.settings k)))) := by
  show ((execute e (readChunk k)).1, (execute e (readChunk k)).2.map answerOfReply) = _
  simp [execute, h, Reading.map, run_readChunk]

theorem write_value (e : Engine) (k : Field) (v : Double) :
    (RemoteSide.write e k v).value =
      { e with settings := e.settings.insert k.name v, history := e.history ++ [writeChunk (k, v)] } := by
  have hrun := run_writeChunk e.settings (k, v)
  rw [writeChunk] at hrun ⊢
  simp [RemoteSide.write, ChunkRunner.send, send, hrun]

theorem setting_sendAll (e : Engine) (writes : List (Field × Double)) (k : Field) :
    (sendAll e writes).setting k.name = (lastWrite writes k).or (e.setting k.name) := by
  refine view_sendAll (fun e k => e.setting k.name) (fun e j v k => ?_) e writes k
  rw [write_value]
  exact SettingTable.get?_insert_name _ _ _ _

theorem history_sendAll (e : Engine) (writes : List (Field × Double)) :
    (sendAll e writes).history = e.history ++ writes.map writeChunk := by
  induction writes generalizing e with
  | nil => exact (List.append_nil _).symm
  | cons w rest ih =>
    rw [sendAll_cons, ih, write_value, List.map_cons, List.append_assoc]
    rfl

theorem queued_sendAll (e : Engine) (writes : List (Field × Double)) : (sendAll e writes).queued = e.queued := by
  induction writes generalizing e with
  | nil => rfl
  | cons w rest ih =>
    rw [sendAll_cons, ih, write_value]

theorem flush_of_reads {e : Engine} {reads : List (Field × Nat)} (h : e.queued = reads.map heldRead) :
    e.flush = ({ e with queued := [] }, reads.map fun p => ⟨p.2, .ok (replyFor e.settings p.1)⟩) := by
  rw [flush, h, runQueued_reads]

/-- The engine after an occasion, and the answers that it delivers. -/
def serve : Occasion → Engine → Engine × List (Delivery Answer)
  | .defer, e => (e.defer, [])
  | .answerAll, e => (e.flush.1, e.flush.2.map (·.map answerOfReply))

end Engine

end CameraPanel
