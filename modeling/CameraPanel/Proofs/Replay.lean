import CameraPanel.Proofs.EngineRuns

/-!
# The history tells the settings

The history of an engine lists the chunks in the order in which they came, but a chunk that is held back runs later than
others that came after it.  The settings are nevertheless what a fresh engine has after it was sent the same chunks, as
long as no chunk that is held back sets anything: such a chunk is `Inert`, and it does not matter when it runs.  The
reads of a panel are inert, and writes are never held back.  A chunk that is refused is inert too.
-/

namespace CameraPanel.Engine

/-- A chunk that is sent is run at once, whether replies are held back or not. -/
private theorem send_value (e : Engine) (chunk : String) :
    (e.send chunk).value = { e with history := e.history ++ [chunk], settings := (run e.settings chunk).1 } := by
  simp only [send]
  split <;> rename_i hrun <;> rw [hrun] <;> rfl

/-- A fresh engine after it was sent some chunks in order. -/
def replay (t : SettingTable) (history : List String) : Engine :=
  history.foldl (fun e chunk => (e.send chunk).value) (.new t false)

private theorem settings_replay_concat (t : SettingTable) (history : List String) (chunk : String) :
    (replay t (history ++ [chunk])).settings = (run (replay t history).settings chunk).1 := by
  rw [replay, List.foldl_concat, send_value]
  rfl

/-! ### Chunks that set nothing -/

/-- A chunk that leaves every table as it is. -/
def Inert (chunk : String) : Prop := ∀ t, (run t chunk).1 = t

private theorem inert_readChunk (k : Field) : Inert (readChunk k) := by
  intro t
  rw [run_readChunk]

private theorem inert_of_refused {chunk : String} {e : CommandError} (h : Command.parse chunk = .error e) :
    Inert chunk := by
  intro t
  rw [run, h]

private theorem runQueued_append (t : SettingTable) (queued later : List (String × Nat)) :
    (runQueued t (queued ++ later)).1 = (runQueued (runQueued t queued).1 later).1 := by
  induction queued generalizing t with
  | nil => rfl
  | cons q rest ih => exact ih _

private theorem runQueued_inert {queued : List (String × Nat)} (h : ∀ q ∈ queued, Inert q.1) (t : SettingTable) :
    (runQueued t queued).1 = t := by
  induction queued generalizing t with
  | nil => rfl
  | cons q rest ih =>
    obtain ⟨hq, hrest⟩ := List.forall_mem_cons.1 h
    show (runQueued (run t q.1).1 rest).1 = t
    rw [hq, ih hrest]

/-! ### Replays -/

/-- The settings are the replay of the history on the table `t`, and all that is held back is inert. -/
structure Replays (t : SettingTable) (e : Engine) : Prop where
  settings : e.settings = (replay t e.history).settings
  held : ∀ q ∈ e.queued, Inert q.1

namespace Replays

variable {t : SettingTable} {e : Engine}

private theorem new (t : SettingTable) (deferred : Bool) : Replays t (.new t deferred) :=
  ⟨rfl, fun _ hq => (List.not_mem_nil hq).elim⟩

private theorem execute (h : Replays t e) {chunk : String} (hchunk : e.deferred = true → Inert chunk) :
    Replays t (e.execute chunk).1 := by
  cases hdeferred : e.deferred with
  | true =>
    have hinert := hchunk hdeferred
    simp only [Engine.execute, hdeferred, if_true]
    refine ⟨?_, fun q hq => ?_⟩
    · rw [settings_replay_concat, hinert]
      exact h.settings
    · rcases List.mem_append.1 hq with hq | hq
      · exact h.held q hq
      · rw [List.mem_singleton.1 hq]
        exact hinert
  | false =>
    simp only [Engine.execute, hdeferred, Bool.false_eq_true, if_false]
    refine ⟨?_, h.held⟩
    rw [settings_replay_concat, ← h.settings]

private theorem send (h : Replays t e) (chunk : String) : Replays t (e.send chunk).value := by
  rw [send_value]
  refine ⟨?_, h.held⟩
  rw [settings_replay_concat, ← h.settings]

private theorem flush (h : Replays t e) : Replays t e.flush.1 := by
  refine ⟨?_, fun _ hq => (List.not_mem_nil hq).elim⟩
  show (runQueued e.settings e.queued).1 = _
  rw [runQueued_inert h.held]
  exact h.settings

end Replays

/-! ### Somebody who runs chunks -/

/-- An engine with the replies that somebody waits for. -/
structure Caller where
  engine : Engine
  replies : Inbox ChunkReply

inductive Caller.Step where
  | execute (chunk : String)
  | send (chunk : String)
  | flush
  /-- Looks at a reply. -/
  | poll (n : Nat)
  /-- Gives a reply up. -/
  | drop (n : Nat)

namespace Caller

def step (c : Caller) : Step → Caller
  | .execute chunk => ⟨(c.engine.execute chunk).1, (c.replies.add (c.engine.execute chunk).2).1⟩
  | .send chunk => { c with engine := (c.engine.send chunk).value }
  | .flush => ⟨c.engine.flush.1, c.replies.deliverAll c.engine.flush.2⟩
  | .poll n => { c with replies := (c.replies.poll n).1 }
  | .drop n => { c with replies := (c.replies.drop n).1 }

/-- A run of steps on an engine that nobody has asked anything. -/
def run (e : Engine) (steps : List Step) : Caller := steps.foldl step ⟨e, .empty⟩

private theorem replays_step {t : SettingTable} {c : Caller} (h : Replays t c.engine) (hnow : c.engine.deferred = false)
    (st : Step) : Replays t (c.step st).engine ∧ (c.step st).engine.deferred = false := by
  cases st with
  | execute chunk =>
    refine ⟨h.execute fun hlater => absurd (hnow.symm.trans hlater) (by decide), ?_⟩
    simp only [step, Engine.execute, hnow, Bool.false_eq_true, if_false]
  | send chunk =>
    refine ⟨h.send chunk, ?_⟩
    simp only [step, send_value]
    exact hnow
  | flush => exact ⟨h.flush, hnow⟩
  | poll n => exact ⟨h, hnow⟩
  | drop n => exact ⟨h, hnow⟩

/-- An engine that never holds anything back runs all chunks in the order of its history. -/
private theorem replays_run (t : SettingTable) (steps : List Step) :
    Replays t (run (.new t false) steps).engine ∧ (run (.new t false) steps).engine.deferred = false := by
  induction steps using List.reverseRecOn with
  | nil => exact ⟨.new t false, rfl⟩
  | append_singleton steps st ih =>
    rw [run, List.foldl_concat]
    exact replays_step ih.1 ih.2 st

end Caller

private theorem replays_serve {t : SettingTable} {e : Engine} (h : Replays t e) (o : Occasion) :
    Replays t (serve o e).1 := by
  cases o with
  | defer => exact ⟨h.settings, h.held⟩
  | answerAll => exact h.flush

private theorem replays_read {t : SettingTable} {e : Engine} (h : Replays t e) (k : Field) :
    Replays t (RemoteSide.read e k).value.1 := by
  show Replays t (e.execute (readChunk k)).1
  exact h.execute fun _ => inert_readChunk k

private theorem replays_write {t : SettingTable} {e : Engine} (h : Replays t e) (k : Field) (v : Double) :
    Replays t (RemoteSide.write e k v).value := by
  have hsend := h.send (writeChunk (k, v))
  rw [send_value, run_writeChunk] at hsend
  rw [write_value]
  exact hsend

private theorem replays_step {t : SettingTable} {c : Client Engine} (h : Replays t c.side) (st : Client.Step) :
    Replays t (c.step serve st).side := by
  cases st with
  | read k => exact replays_read h k
  | write k v =>
    simp only [Client.step]
    exact replays_write h k v
  | poll n => exact h
  | drop n => exact h
  | remote o => exact replays_serve h o

/-- A panel never has anything held back but reads. -/
private theorem replays_client (t : SettingTable) (deferred : Bool) (steps : List Client.Step) :
    Replays t (Client.run serve (Engine.new t deferred) steps).side := by
  induction steps using List.reverseRecOn with
  | nil => exact .new t deferred
  | append_singleton steps st ih =>
    rw [Client.run, List.foldl_concat]
    exact replays_step ih st

/-! ### Chunks that are refused -/

/-- Two engines with the same settings now, and after every flush. -/
structure Alike (e e' : Engine) : Prop where
  settings : e.settings = e'.settings
  deferred : e.deferred = e'.deferred
  flushed : ∀ t, (runQueued t e.queued).1 = (runQueued t e'.queued).1

private theorem Alike.act {e e' : Engine} (h : Alike e e') (a : Act) : Alike (e.act a) (e'.act a) := by
  cases a with
  | execute chunk =>
    cases hdeferred : e.deferred with
    | true =>
      have hdeferred' := h.deferred.symm.trans hdeferred
      simp only [Engine.act, Engine.execute, hdeferred, hdeferred', if_true]
      refine ⟨h.settings, rfl, fun t => ?_⟩
      rw [runQueued_append, runQueued_append, h.flushed]
      rfl
    | false =>
      have hdeferred' := h.deferred.symm.trans hdeferred
      simp only [Engine.act, Engine.execute, hdeferred, hdeferred', Bool.false_eq_true, if_false]
      refine ⟨?_, rfl, h.flushed⟩
      rw [h.settings]
  | send chunk =>
    simp only [Engine.act, send_value]
    refine ⟨?_, h.deferred, h.flushed⟩
    rw [h.settings]
  | flush =>
    refine ⟨?_, h.deferred, fun _ => rfl⟩
    show (runQueued e.settings e.queued).1 = (runQueued e'.settings e'.queued).1
    rw [h.flushed, h.settings]
  | defer => exact ⟨h.settings, rfl, h.flushed⟩

private theorem Alike.settings_play {e e' : Engine} (h : Alike e e') (acts : List Act) :
    (e.play acts).settings = (e'.play acts).settings := by
  induction acts generalizing e e' with
  | nil => exact h.settings
  | cons a acts ih => exact ih (h.act a)

private theorem alike_execute {chunk : String} (h : Inert chunk) (e : Engine) : Alike (e.act (.execute chunk)) e := by
  cases hdeferred : e.deferred with
  | true =>
    simp only [Engine.act, Engine.execute, hdeferred, if_true]
    refine ⟨rfl, hdeferred.symm, fun t => ?_⟩
    rw [runQueued_append]
    exact h _
  | false =>
    simp only [Engine.act, Engine.execute, hdeferred, Bool.false_eq_true, if_false]
    exact ⟨h _, hdeferred.symm, fun _ => rfl⟩

private theorem alike_send {chunk : String} (h : Inert chunk) (e : Engine) : Alike (e.act (.send chunk)) e := by
  simp only [Engine.act, send_value]
  exact ⟨h _, rfl, fun _ => rfl⟩

/-- Whatever a panel asks of an engine, with replies held back and flushed at any time, the settings are those of a fresh
engine that was sent the chunks of the history in order; and likewise whatever chunks are run on an engine that never
holds anything back.  A chunk that is refused makes no difference to any setting, neither now nor when it is flushed. -/
theorem settings_are_replayed (t : SettingTable) :
    (∀ (deferred : Bool) (steps : List Client.Step),
      let e := (Client.run serve (Engine.new t deferred) steps).side
      e.settings = (replay t e.history).settings) ∧
    (∀ steps : List Caller.Step,
      let e := (Caller.run (.new t false) steps).engine
      e.settings = (replay t e.history).settings) ∧
    ∀ chunk error, Command.parse chunk = .error error → ∀ (e : Engine) (later : List Act),
      (e.play (.execute chunk :: later)).settings = (e.play later).settings ∧
      (e.play (.send chunk :: later)).settings = (e.play later).settings := by
  refine ⟨fun deferred steps => (replays_client t deferred steps).settings,
    fun steps => (Caller.replays_run t steps).1.settings, ?_⟩
  intro chunk error hrefused e later
  have hinert := inert_of_refused hrefused
  exact ⟨(alike_execute hinert e).settings_play later, (alike_send hinert e).settings_play later⟩

theorem refused_chunk_is_flushed_without_effect :
    Command.parse "print(1)" = .error (.unknownCall "print(1)") ∧
      ((Engine.new .empty true).play [.execute "print(1)", .flush]).settings = .empty := by
  have hrefused : Command.parse "print(1)" = .error (.unknownCall "print(1)") := by decide
  exact ⟨hrefused, ((settings_are_replayed .empty).2.2 _ _ hrefused (.new .empty true) [.flush]).1⟩

-- A write that is held back runs after those that came later, so that the history tells another value.
example :
    let e := (Engine.new .empty true).play
      [.execute "settings.setValue(\"roll\",1/0)", .send "settings.setValue(\"roll\",0/0)", .flush]
    e.setting "roll" = some (.infinity false) ∧ (replay .empty e.history).setting "roll" = some .nan := by
  decide

end CameraPanel.Engine
