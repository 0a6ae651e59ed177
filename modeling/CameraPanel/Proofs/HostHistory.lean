import CameraPanel.Proofs.Attribution
import CameraPanel.Proofs.HostSession

/-!
# The history of the engine under the host

Everything that the engine of a host ever receives can be accounted for: six reads at the start, six writes of defaults
for each reset, and for each frame the writes that the frame tells of.  A session without further reads changes the
engine by its writes and by nothing else (`Engine.Took`), since what the engine holds back are reads, which change no
setting when they run.  That the panel agrees with the latest write of a field after a frame comes from the account of
the writes in the panel itself (`Session.accounted_play`) and from the fact that a digest leaves every cell quiet.
-/

namespace CameraPanel

/-! ### Chunks in the history -/

/-- The value that a chunk sets a setting to, if it does. -/
def setBy? (name : String) (chunk : String) : Option Double :=
  match Command.parse chunk with
  | .ok (.set key v) => if key = name then some v else none
  | _ => none

/-- The value that the latest chunk that sets a setting carries. -/
def latestSet? (history : List String) (name : String) : Option Double := history.reverse.findSome? (setBy? name)

private theorem setBy?_readChunk (name : String) (k : Field) : setBy? name (readChunk k) = none := by
  rw [setBy?, parse_readChunk]

theorem setBy?_writeChunk (k : Field) (w : Field × Double) :
    setBy? k.name (writeChunk w) = if k == w.1 then some w.2 else none := by
  rw [setBy?, parse_writeChunk]
  by_cases hk : w.1 = k
  · simp [hk]
  · have hname : w.1.name ≠ k.name := Field.name_injective.ne hk
    simp [hname, Ne.symm hk]

private theorem latestSet?_append_writes (reads : List Field) (writes : List (Field × Double)) (k : Field) :
    latestSet? (reads.map readChunk ++ writes.map writeChunk) k.name = lastWrite writes k := by
  have hreads : (reads.map readChunk).reverse.findSome? (setBy? k.name) = none := by
    rw [List.findSome?_eq_none_iff]
    intro chunk hchunk
    obtain ⟨j, -, rfl⟩ := List.mem_map.1 (List.mem_reverse.1 hchunk)
    exact setBy?_readChunk k.name j
  have hwrites : setBy? k.name ∘ writeChunk = fun w => if k == w.1 then some w.2 else none := by
    funext w
    rw [Function.comp_apply, setBy?_writeChunk]
  rw [latestSet?, List.reverse_append, List.findSome?_append, hreads, Option.or_none, ← List.map_reverse,
    List.findSome?_map, hwrites, lastWrite, List.lookup_eq_findSome?]

/-! ### What the engine took -/

namespace Engine

/-- All that is held back are reads. -/
def HoldsReads (e : Engine) : Prop := ∃ reads : List (Field × Nat), e.queued = reads.map heldRead

/-- On the way from `e` to `e'` the engine received these writes and nothing else. -/
structure Took (e e' : Engine) (writes : List (Field × Double)) : Prop where
  history : e'.history = e.history ++ writes.map writeChunk
  setting : ∀ k : Field, e'.setting k.name = (lastWrite writes k).or (e.setting k.name)
  held : e'.HoldsReads

private theorem Took.refl {e : Engine} (h : e.HoldsReads) : e.Took e [] := ⟨by simp, fun _ => rfl, h⟩

private theorem Took.trans {e e' e'' : Engine} {writes later : List (Field × Double)} (h : e.Took e' writes)
    (h' : e'.Took e'' later) : e.Took e'' (writes ++ later) := by
  refine ⟨?_, fun k => ?_, h'.held⟩
  · rw [h'.history, h.history, List.map_append, List.append_assoc]
  · rw [h'.setting, h.setting, lastWrite_append, Option.or_assoc]

private theorem took_sendAll {e : Engine} (h : e.HoldsReads) (writes : List (Field × Double)) :
    e.Took (sendAll e writes) writes := by
  refine ⟨history_sendAll e writes, setting_sendAll e writes, ?_⟩
  rw [HoldsReads, queued_sendAll]
  exact h

private theorem took_serve {e : Engine} (h : e.HoldsReads) (o : Occasion) : e.Took (serve o e).1 [] := by
  cases o with
  | defer => exact ⟨by simp [serve, defer], fun _ => rfl, h⟩
  | answerAll =>
    obtain ⟨reads, hreads⟩ := h
    rw [serve, flush_of_reads hreads]
    exact ⟨by simp, fun _ => rfl, ⟨[], rfl⟩⟩

private theorem read_history {e : Engine} (h : e.HoldsReads) (k : Field) :
    (RemoteSide.read e k).value.1.history = e.history ++ [readChunk k] ∧
      (RemoteSide.read e k).value.1.HoldsReads := by
  cases hdeferred : e.deferred with
  | true =>
    obtain ⟨reads, hreads⟩ := h
    rw [read_of_deferred hdeferred]
    exact ⟨rfl, reads ++ [(k, e.nextTicket)], by simp [hreads]⟩
  | false =>
    rw [read_of_not_deferred hdeferred]
    exact ⟨rfl, h⟩

private theorem startReads_history {e : Engine} (h : e.HoldsReads) (c : Component) (ks : List Field) (p : Pool) :
    (c.startReads ks e p).value.1.history = e.history ++ ks.map readChunk ∧
      (c.startReads ks e p).value.1.HoldsReads := by
  induction ks generalizing e p with
  | nil => exact ⟨by simp [Component.startReads], h⟩
  | cons k rest ih =>
    obtain ⟨hread, hheld⟩ := read_history h k
    obtain ⟨hrest, hheld'⟩ := ih hheld (p.start ⟨c.mount, k, (RemoteSide.read e k).value.2⟩)
    refine ⟨hrest.trans ?_, hheld'⟩
    rw [hread]
    simp

end Engine

namespace Session

/-- A session in which no reads are started changes the engine by its writes only. -/
theorem took_play {s : Session Engine} (hs : s.Mounted) {e : Engine} (he : s.remote = some e) (h : e.HoldsReads)
    {steps : List (Step Occasion)} (hsteps : .readAll ∉ steps) :
    ∃ e', (s.play Engine.serve steps).remote = some e' ∧ e.Took e' (s.written Engine.serve steps) := by
  induction steps using List.reverseRecOn with
  | nil =>
    obtain ⟨c, r, p, mounts, rfl, hc⟩ := hs
    exact ⟨e, he, .refl h⟩
  | append_singleton steps st ih =>
    have hst : st ≠ .readAll := fun heq => hsteps (by simp [heq])
    obtain ⟨e', he', htook⟩ := ih fun hmem => hsteps (by simp [hmem])
    obtain ⟨c, r, p, mounts, hplay, hc⟩ := hs.play Engine.serve steps
    rw [play_concat, hs.written_append, hplay, step_linked, written_step Engine.serve c hc]
    rw [hplay] at he'
    cases he'
    refine ⟨_, rfl, htook.trans ?_⟩
    -- Only a reset and a digest send anything, and only an occasion moves the engine otherwise.
    cases st with
    | readAll => exact absurd rfl hst
    | reset => exact Engine.took_sendAll htook.held _
    | digest => exact Engine.took_sendAll htook.held _
    | remote o => exact Engine.took_serve htook.held o
    | run => exact .refl htook.held
    | finish n => exact .refl htook.held
    | edit k value => exact .refl htook.held
    | toggle => exact .refl htook.held

end Session

/-! ### The account of a run -/

namespace Host

/-- What a step has written, as far as its outcome tells. -/
def Outcome.Accounts : Outcome → List (Field × Double) → Prop
  | .applied .reset, writes => writes = Field.all.map fun k => (k, k.default)
  | .applied _, writes => writes = []
  | .updated n, writes => writes.length = n ∧ (writes.map Prod.fst).Sublist Field.all

theorem written_beforeDigest {h : Host} (hm : h.session.Mounted) :
    h.session.written Engine.serve h.beforeDigest = [] := by
  rw [session, Session.written_linked Engine.serve h.component (ofPanel_of_mounted hm), beforeDigest]
  split <;> rfl

private theorem accounts_update {h : Host} (hm : h.session.Mounted) :
    (Outcome.updated h.update.value.2).Accounts (h.session.written Engine.serve (h.sessionSteps .update)) := by
  have hm' := hm.play Engine.serve h.beforeDigest
  have hresult := (hm'.digest_result Engine.serve).symm.trans h.session_update.2
  rw [sessionSteps, hm.written_append, written_beforeDigest hm, List.nil_append]
  refine ⟨Option.some.inj hresult, ?_⟩
  obtain ⟨c, r, p, mounts, hplay, hc⟩ := hm'
  rw [hplay, Session.written_step Engine.serve c hc]
  exact hc.sublist_sends_digested

private theorem accounts_next {h : Host} (hm : h.session.Mounted) (st : Step) :
    (h.next st).2.Accounts (h.session.written Engine.serve (h.sessionSteps st)) := by
  cases st with
  | update => exact accounts_update hm
  | apply a =>
    have hwritten := fun steps : List (Session.Step Occasion) =>
      Session.written_linked Engine.serve h.component (ofPanel_of_mounted hm) h.engine h.pool 1 steps
    cases a <;> exact (hwritten _).trans rfl

private theorem account_play {h : Host} (hm : h.session.Mounted) (steps : List Step) :
    ∃ (inner : List (Session.Step Occasion)) (blocks : List (List (Field × Double))), .readAll ∉ inner ∧
      (h.play steps).session = h.session.play Engine.serve inner ∧
      h.session.written Engine.serve inner = blocks.flatten ∧
      List.Forall₂ Outcome.Accounts (h.outcomes steps) blocks := by
  induction steps generalizing h with
  | nil =>
    refine ⟨[], [], by simp, rfl, ?_, .nil⟩
    exact Session.written_linked Engine.serve h.component (ofPanel_of_mounted hm) h.engine h.pool 1 []
  | cons st rest ih =>
    obtain ⟨inner, blocks, hinner, hplay, hwritten, hblocks⟩ := ih (mounted_next hm st)
    refine ⟨h.sessionSteps st ++ inner, h.session.written Engine.serve (h.sessionSteps st) :: blocks, ?_, ?_, ?_,
      .cons (accounts_next hm st) hblocks⟩
    · simpa using ⟨h.readAll_not_mem_sessionSteps st, hinner⟩
    · rw [play_cons, hplay, session_next, Session.play_append]
    · rw [hm.written_append, ← session_next, hwritten, List.flatten_cons]

/-- A frame leaves every cell quiet. -/
theorem quiet_update {h : Host} (hm : h.session.Mounted) (k : Field) :
    (h.update.value.1.component.settings.cells.get k).Quiet := by
  obtain ⟨c, r, p, mounts, hplay, hc⟩ := hm.play Engine.serve h.beforeDigest
  have hsession := h.session_update.1
  have hdigest := Session.step_linked Engine.serve c r p mounts .digest
  rw [hplay] at hsession
  have hcomponent := congrArg Session.component (hsession.trans hdigest)
  have hsettings : h.update.value.1.component.settings = c.settings.after .digested := by
    simpa [session, Session.linked, Session.event] using congrArg (Option.map Component.settings) hcomponent
  rw [hsettings]
  exact hc.settled.quiet_digest k

/-- At the start the engine has received one read of each field, and nothing else. -/
private theorem history_new (o : Options) :
    (new o).value.engine.history = Field.all.map readChunk ∧ (new o).value.engine.HoldsReads :=
  Engine.startReads_history (e := .new (.ofOffsets o.bridge.seed) (decide (0 < o.bridge.replyDelayFrames.toNat)))
    ⟨[], rfl⟩ (.new 0 o.panel.startVisible) Field.all .empty

/-- A run from the start, as a run of the session, with the writes of each step. -/
theorem account_new (o : Options) (steps : List Step) : ∃ blocks : List (List (Field × Double)),
    List.Forall₂ Outcome.Accounts ((new o).value.outcomes steps) blocks ∧
    (new o).value.engine.Took ((new o).value.play steps).engine blocks.flatten ∧
    ∀ k w, lastWrite blocks.flatten k = some w →
      (((new o).value.play steps).component.settings.cells.get k).hydrated = true ∧
      (((new o).value.play steps).component.settings.cells.get k).baseline = some w := by
  have hnew := session_new o
  set e := Engine.new (.ofOffsets o.bridge.seed) (decide (0 < o.bridge.replyDelayFrames.toNat))
  have hm₀ : (Session.new e o.panel.startVisible).Mounted := Session.mounted_new e o.panel.startVisible
  obtain ⟨inner, blocks, hinner, hplay, hwritten, hblocks⟩ := account_play (mounted_new o) steps
  refine ⟨blocks, hblocks, ?_, fun k w hw => ?_⟩
  · obtain ⟨e', he', htook⟩ := Session.took_play (mounted_new o) rfl (history_new o).2 hinner
    rw [← hplay] at he'
    cases he'
    exact hwritten ▸ htook
  · -- The account of the session starts with the reads, which write nothing.
    obtain ⟨c, r, p, mounts, hrun, -, hacc⟩ :=
      Session.accounted_play Engine.serve e o.panel.startVisible (.readAll :: inner)
    have hstart : (Session.new e o.panel.startVisible).written Engine.serve (.readAll :: inner) = blocks.flatten := by
      rw [← List.singleton_append, hm₀.written_append, Session.play_cons, Session.play_nil, ← hnew, hwritten]
      rfl
    rw [Session.play_cons, ← hnew, ← hplay] at hrun
    cases hrun
    exact hacc.writes k w (hstart ▸ hw)

/-- The history of the engine is one read of each field, and then, for each step, the defaults of all fields if it was a
reset, as many writes of different fields as it told if it was a frame, and nothing otherwise.  Every chunk in it is a
command.  A setting that was ever written has the value that the latest chunk for it carries, and after a frame this is
the same as the value of the field in the panel, if it has one. -/
theorem history_accounts_for_steps (o : Options) (steps : List Step) :
    let h := (new o).value.play steps
    (∃ blocks : List (List (Field × Double)), List.Forall₂ Outcome.Accounts ((new o).value.outcomes steps) blocks ∧
      h.engine.history = Field.all.map readChunk ++ blocks.flatten.map writeChunk) ∧
    (∀ chunk ∈ h.engine.history, ∃ c, Command.parse chunk = .ok c) ∧
    ∀ (k : Field) (v : Double), latestSet? h.engine.history k.name = some v →
      h.engine.setting k.name = some v ∧
      (steps.getLast? = some .update → ∀ w, h.field k = some w → v.same w = true) := by
  intro h
  obtain ⟨blocks, hblocks, htook, hagreed⟩ := account_new o steps
  have hhistory : h.engine.history = Field.all.map readChunk ++ blocks.flatten.map writeChunk := by
    rw [htook.history, (history_new o).1]
  refine ⟨⟨blocks, hblocks, hhistory⟩, ?_, ?_⟩
  · intro chunk hchunk
    rw [hhistory] at hchunk
    rcases List.mem_append.1 hchunk with hchunk | hchunk
    · obtain ⟨k, -, rfl⟩ := List.mem_map.1 hchunk
      exact ⟨_, parse_readChunk k⟩
    · obtain ⟨w, -, rfl⟩ := List.mem_map.1 hchunk
      exact ⟨_, parse_writeChunk w⟩
  · intro k v hlatest
    rw [hhistory, latestSet?_append_writes] at hlatest
    refine ⟨by rw [htook.setting, hlatest, Option.some_or], fun hlast w hw => ?_⟩
    obtain ⟨before, rfl⟩ := List.getLast?_eq_some_iff.1 hlast
    obtain ⟨hh, hb⟩ := hagreed k v hlatest
    have hquiet : (h.component.settings.cells.get k).Quiet := by
      have hupdate : h = ((new o).value.play before).update.value.1 := play_concat _ before .update
      rw [hupdate]
      exact quiet_update (mounted_play (mounted_new o) before) k
    have hsame := Cell.quiet_iff.1 hquiet w hh hw
    rw [hb] at hsame
    exact hsame

end Host

end CameraPanel
