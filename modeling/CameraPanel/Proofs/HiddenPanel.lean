import CameraPanel.Proofs.Answers
import CameraPanel.Proofs.EngineRuns
import CameraPanel.Proofs.HostHydration

/-!
# A hidden panel

While the panel is hidden, the keyboard reaches the host only by the key that shows the panel again.  That nothing else
moves either needs more: no read, result or edit from before may be left that a later frame would turn into a new value
or a write.  Every read that is still under way belongs to a chunk that the engine holds back (`Host.Attended`),
whatever was done with the host, and with its engine from outside.  So the frame in which the engine replies finishes
all reads, and leaves a host in which nothing is under way (`Host.Idle`).  A frame of such a host only counts.
-/

namespace CameraPanel

/-! ### Reads under way -/

namespace Pool

/-- Every task that has no answer waits for one of the tickets. -/
structure HeldBy (p : Pool) (tickets : List Nat) : Prop where
  woken : ∀ t ∈ p.woken, ∃ a, t.reading = .now a
  started : ∀ t ∈ p.started, ∀ n, t.reading = .later n → n ∈ tickets
  parked : ∀ t ∈ p.parked, ∃ n ∈ tickets, t.reading = .later n

variable {p : Pool} {tickets : List Nat}

private theorem heldBy_empty (tickets : List Nat) : empty.HeldBy tickets := ⟨nofun, nofun, nofun⟩

private theorem HeldBy.mono (h : p.HeldBy tickets) {more : List Nat} (hsub : tickets ⊆ more) : p.HeldBy more := by
  refine ⟨h.woken, fun t ht n hn => hsub (h.started t ht n hn), fun t ht => ?_⟩
  obtain ⟨n, hn, hlater⟩ := h.parked t ht
  exact ⟨n, hsub hn, hlater⟩

private theorem HeldBy.start (h : p.HeldBy tickets) {t : ReadTask} (ht : ∀ n, t.reading = .later n → n ∈ tickets) :
    (p.start t).HeldBy tickets := by
  refine ⟨h.woken, fun t' ht' => ?_, h.parked⟩
  rcases List.mem_append.1 ht' with ht' | ht'
  · exact h.started t' ht'
  · rw [List.mem_singleton.1 ht']
    exact ht

private theorem HeldBy.run (h : p.HeldBy tickets) : p.run.1.HeldBy tickets := by
  refine ⟨nofun, nofun, fun t ht => ?_⟩
  rcases List.mem_append.1 ht with ht | ht
  · exact h.parked t ht
  · obtain ⟨ht, hnone⟩ := List.mem_filter.1 ht
    cases hreading : t.reading with
    | now a => simp [ReadTask.finished?, hreading] at hnone
    | later n =>
      rcases List.mem_append.1 ht with ht | ht
      · obtain ⟨a, ha⟩ := h.woken t ht
        rw [hreading] at ha
        cases ha
      · exact ⟨n, h.started t ht n hreading, rfl⟩

/-- Nobody waits for a ticket any more once it was delivered. -/
private theorem HeldBy.deliver {d : Delivery Answer} (h : p.HeldBy (d.ticket :: tickets)) :
    (p.deliver d).HeldBy tickets := by
  have hother : ∀ {t : ReadTask} {n : Nat}, n ∈ d.ticket :: tickets → t.reading = .later n →
      ¬t.awaits d.ticket = true → n ∈ tickets := by
    intro t n hn hlater hawaits
    rcases List.mem_cons.1 hn with rfl | hn
    · exact absurd (ReadTask.awaits_iff.2 hlater) hawaits
    · exact hn
  refine ⟨fun t ht => ?_, fun t ht n hn => ?_, fun t ht => ?_⟩
  · rcases List.mem_append.1 ht with ht | ht
    · exact h.woken t ht
    · obtain ⟨t₀, -, rfl⟩ := List.mem_map.1 ht
      exact ⟨d.answer, rfl⟩
  · obtain ⟨t₀, ht₀, rfl⟩ := List.mem_map.1 ht
    split at hn
    · cases hn
    · rename_i hawaits
      exact hother (h.started t₀ ht₀ n hn) hn hawaits
  · obtain ⟨ht, hawaits⟩ := List.mem_filter.1 ht
    obtain ⟨n, hn, hlater⟩ := h.parked t ht
    exact ⟨n, hother hn hlater (by simpa using hawaits), hlater⟩

private theorem HeldBy.deliverAll {ds : List (Delivery Answer)} (h : p.HeldBy (ds.map (·.ticket) ++ tickets)) :
    (p.deliverAll ds).HeldBy tickets := by
  induction ds generalizing p with
  | nil => exact h
  | cons d rest ih => exact ih h.deliver

/-- If nobody waits, a run finishes all tasks. -/
private theorem HeldBy.run_eq_empty (h : p.HeldBy []) : p.run.1 = empty := by
  have hparked : p.parked = [] := by
    rw [List.eq_nil_iff_forall_not_mem]
    intro t ht
    obtain ⟨n, hn, -⟩ := h.parked t ht
    cases hn
  have hdone : ∀ t ∈ p.woken ++ p.started, ¬t.finished?.isNone = true := by
    intro t ht
    cases hreading : t.reading with
    | now a => simp [ReadTask.finished?, hreading]
    | later n =>
      rcases List.mem_append.1 ht with ht | ht
      · obtain ⟨a, ha⟩ := h.woken t ht
        rw [hreading] at ha
        cases ha
      · cases h.started t ht n hreading
  rw [Pool.run, hparked, List.filter_eq_nil_iff.2 hdone]
  rfl

end Pool

/-! ### The engine -/

namespace Engine

private theorem tickets_flush (e : Engine) : e.flush.2.map (·.ticket) = e.outstanding := by
  have hqueued : ∀ (t : SettingTable) (queued : List (String × Nat)),
      (runQueued t queued).2.map (·.ticket) = queued.map (·.2) := by
    intro t queued
    induction queued generalizing t with
    | nil => rfl
    | cons q rest ih => exact congrArg _ (ih _)
  exact hqueued e.settings e.queued

private theorem outstanding_sendAll (e : Engine) (writes : List (Field × Double)) :
    (sendAll e writes).outstanding = e.outstanding := by
  rw [outstanding, queued_sendAll]
  rfl

/-- A read that is not answered at once is held back. -/
private theorem outstanding_read (e : Engine) (k : Field) :
    e.outstanding ⊆ (RemoteSide.read e k).value.1.outstanding ∧
      ∀ n, (RemoteSide.read e k).value.2 = .later n → n ∈ (RemoteSide.read e k).value.1.outstanding := by
  cases hdeferred : e.deferred with
  | true =>
    rw [read_of_deferred hdeferred]
    refine ⟨fun n hn => ?_, fun n hn => ?_⟩
    · simpa [outstanding] using Or.inl (List.mem_map.1 hn)
    · cases hn
      simp [outstanding, heldRead]
  | false =>
    rw [read_of_not_deferred hdeferred]
    exact ⟨List.Subset.refl _, fun n hn => by cases hn⟩

private theorem heldBy_startReads {e : Engine} {p : Pool} (h : p.HeldBy e.outstanding) (c : Component) (ks : List Field)
    :
    (c.startReads ks e p).value.2.HeldBy (c.startReads ks e p).value.1.outstanding := by
  induction ks generalizing e p with
  | nil => exact h
  | cons k rest ih =>
    obtain ⟨hsub, hlater⟩ := outstanding_read e k
    exact ih ((h.mono hsub).start hlater)

end Engine

/-! ### Hosts -/

namespace Host

/-- The host after somebody did something with its engine.  A flush answers the reads of the panel too. -/
def onEngine (h : Host) (a : Engine.Act) : Host :=
  { h with
    engine := h.engine.act a
    pool := if a = .flush then h.pool.deliverAll (h.engine.flush.2.map (·.map answerOfReply)) else h.pool }

/-- The hosts that there can be: started with some options, worked with, and with an engine that others may use too. -/
inductive Reached : Host → Prop
  | new (o : Options) : Reached (new o).value
  | next {h : Host} (hr : Reached h) (st : Step) : Reached (h.next st).1
  | onEngine {h : Host} (hr : Reached h) (a : Engine.Act) : Reached (h.onEngine a)

/-- The engine holds back all that the panel waits for. -/
def Attended (h : Host) : Prop := h.pool.HeldBy h.engine.outstanding

variable {h : Host}

private theorem attended_new (o : Options) : (new o).value.Attended :=
  Engine.heldBy_startReads (e := .new (.ofOffsets o.bridge.seed) (decide (0 < o.bridge.replyDelayFrames.toNat)))
    (Pool.heldBy_empty _) (.new 0 o.panel.startVisible) Field.all

private theorem Attended.flush (ha : h.Attended) :
    (h.pool.deliverAll (h.engine.flush.2.map (·.map answerOfReply))).HeldBy [] := by
  apply Pool.HeldBy.deliverAll
  have htickets : (h.engine.flush.2.map (·.map answerOfReply)).map (·.ticket) = h.engine.outstanding := by
    rw [List.map_map]
    exact h.engine.tickets_flush
  rw [htickets, List.append_nil]
  exact ha

private theorem reply_of_due (hdue : h.delay ≤ h.frame) :
    h.reply.value = { h with
      engine := h.engine.flush.1, pool := h.pool.deliverAll (h.engine.flush.2.map (·.map answerOfReply)) } := by
  rw [reply, if_pos hdue]
  simp only
  split <;> rfl

private theorem reply_of_not_due (hdue : ¬h.delay ≤ h.frame) : h.reply.value = h := by
  rw [reply, if_neg hdue]
  rfl

private theorem Attended.reply (ha : h.Attended) : h.reply.value.Attended := by
  by_cases hdue : h.delay ≤ h.frame
  · rw [reply_of_due hdue]
    exact ha.flush
  · rw [reply_of_not_due hdue]
    exact ha

/-- A frame in its parts. -/
private theorem update_value (h : Host) :
    let h' := (reply { h with frame := h.frame + 1 }).value
    let settings := h'.component.settings.after (.arrived (arrivals h'.component.mount h'.pool.run.2))
    h.update.value =
      ({ h' with
          engine := sendAll h'.engine (settings.sends .digested)
          component := ⟨h'.component.mount, settings.after .digested⟩
          pool := h'.pool.run.1 }, settings.digest.2.changes.length) := by
  intro h' settings
  unfold update
  simp only [Logged.value_bind, Component.takeAll_value, Component.digest_value]
  rfl

private theorem frame_update (h : Host) : h.update.value.1.frame = h.frame + 1 := (clock_next h .update).2

private theorem visible_update (h : Host) : h.update.value.1.visible = h.visible := by
  rw [update_value]
  by_cases hdue : h.delay ≤ h.frame + 1
  · rw [reply_of_due (h := { h with frame := h.frame + 1 }) hdue]
    rfl
  · rw [reply_of_not_due (h := { h with frame := h.frame + 1 }) hdue]
    rfl

private theorem Attended.update (ha : h.Attended) : h.update.value.1.Attended := by
  have hreply : (Host.reply { h with frame := h.frame + 1 }).value.Attended := Attended.reply ha
  rw [update_value]
  refine hreply.run.mono ?_
  rw [Engine.outstanding_sendAll]
  exact List.Subset.refl _

private theorem Attended.apply (ha : h.Attended) (a : Action) : (h.apply a).value.Attended := by
  cases a with
  | reset =>
    show h.pool.HeldBy (sendAll h.engine (h.component.settings.sends .reset)).outstanding
    rw [Engine.outstanding_sendAll]
    exact ha
  | _ => exact ha

private theorem Attended.onEngine (ha : h.Attended) (a : Engine.Act) : (h.onEngine a).Attended := by
  cases a with
  | execute chunk =>
    refine Pool.HeldBy.mono ha ?_
    show h.engine.outstanding ⊆ (h.engine.execute chunk).1.outstanding
    unfold Engine.execute
    cases h.engine.deferred <;> simp [Engine.outstanding]
  | send chunk =>
    have hqueued : (h.engine.send chunk).value.queued = h.engine.queued := by
      unfold Engine.send
      simp only
      split <;> rfl
    show h.pool.HeldBy ((h.engine.send chunk).value.queued.map (·.2))
    rw [hqueued]
    exact ha
  | flush => exact ha.flush
  | defer => exact ha

private theorem Reached.attended (hr : h.Reached) : h.Attended := by
  induction hr with
  | new o => exact attended_new o
  | next _ st ih =>
    cases st with
    | apply a => exact ih.apply a
    | update => exact ih.update
  | onEngine _ a ih => exact ih.onEngine a

/-! ### Idle hosts -/

/-- Nothing is under way that a frame could make something of. -/
structure Idle (h : Host) : Prop where
  pool : h.pool = .empty
  queued : h.engine.queued = []
  waiting : h.component.settings.waiting = []
  edited : h.component.settings.edited = .empty

private theorem Idle.at_frame (hi : h.Idle) (n : Nat) : Idle { h with frame := n } :=
  ⟨hi.pool, hi.queued, hi.waiting, hi.edited⟩

/-- The frame in which the engine replies leaves nothing under way. -/
private theorem Attended.idle_update (ha : h.Attended) (hdue : h.delay ≤ h.frame + 1) : h.update.value.1.Idle := by
  rw [update_value, reply_of_due (h := { h with frame := h.frame + 1 }) hdue]
  refine ⟨ha.flush.run_eq_empty, ?_, rfl, rfl⟩
  exact Engine.queued_sendAll _ _

private theorem Idle.reply (hi : h.Idle) : h.reply.value = h := by
  by_cases hdue : h.delay ≤ h.frame
  · have hflush : h.engine.flush = (h.engine, []) := by
      rw [Engine.flush, hi.queued]
      simp only [Engine.runQueued, ← hi.queued]
    rw [reply_of_due hdue, hflush]
    rfl
  · exact reply_of_not_due hdue

/-- A frame of an idle host only counts. -/
private theorem Idle.update (hi : h.Idle) : h.update.value = ({ h with frame := h.frame + 1 }, 0) := by
  have hreply : (Host.reply { h with frame := h.frame + 1 }).value = { h with frame := h.frame + 1 } :=
    (hi.at_frame (h.frame + 1)).reply
  have hsettings : h.component.settings.after (.arrived (arrivals h.component.mount h.pool.run.2)) =
      h.component.settings := by
    rw [hi.pool]
    exact congrArg (fun waiting => { h.component.settings with waiting }) (List.append_nil _)
  have hdigest := Settings.digest_idle hi.waiting hi.edited
  rw [update_value, hreply]
  simp only [hsettings]
  simp only [Settings.after, Settings.sends, hdigest, hi.pool]
  rfl

/-! ### Key events and frames -/

/-- What reaches a host: a key event, or the next frame. -/
inductive Event where
  | key (key : Key) (pressed : Bool)
  | frame

/-- The host after an event. -/
def react (h : Host) : Event → Host
  | .key key pressed => (h.press key pressed).value.1
  | .frame => h.update.value.1

def reactAll (h : Host) (events : List Event) : Host := events.foldl react h

/-- A hidden panel hears no key but the one that shows it; to end the program is left to the caller. -/
private theorem press_of_hidden (hhidden : h.visible = false) {key : Key} {pressed : Bool}
    (hkey : key = .h → pressed = false) :
    (h.press key pressed).value.1 = h := by
  unfold press Key.action?
  rw [hhidden]
  cases pressed with
  | false => rfl
  | true =>
    cases key with
    | h => cases hkey rfl
    | _ => rfl

/-- An idle host with a hidden panel does nothing but count frames, as long as the panel is not shown again. -/
private theorem Idle.reactAll (hi : h.Idle) (hhidden : h.visible = false) {events : List Event}
    (hkeys : .key .h true ∉ events) : ∃ n, h.reactAll events = { h with frame := n } := by
  induction events generalizing h with
  | nil => exact ⟨h.frame, rfl⟩
  | cons e rest ih =>
    obtain ⟨hfirst, hrest⟩ : e ≠ .key .h true ∧ .key .h true ∉ rest := by
      simpa [eq_comm] using hkeys
    have hstep : h.react e = h ∨ h.react e = { h with frame := h.frame + 1 } := by
      cases e with
      | key key pressed =>
        refine Or.inl (press_of_hidden hhidden fun hkey => ?_)
        rw [hkey] at hfirst
        simpa using hfirst
      | frame => exact Or.inr (congrArg Prod.fst hi.update)
    show ∃ n, (h.react e).reactAll rest = _
    rcases hstep with hstep | hstep
    · rw [hstep]
      exact ih hi hhidden hrest
    · rw [hstep]
      exact ih (hi.at_frame (h.frame + 1)) hhidden hrest

/-- A hidden panel is inert once a frame has passed in which the engine replies: whatever keys are pressed and released,
but for a press of the one that shows the panel again, and however many frames pass, the values, the selection, the
settings of the engine and its history stay as they are, the panel stays hidden, and no frame writes. -/
theorem hidden_panel_is_inert (hr : h.Reached) (hdue : max 1 h.delay ≤ h.update.value.1.frame)
    (hhidden : h.update.value.1.visible = false) (events : List Event) (hkeys : .key .h true ∉ events) :
    let before := h.update.value.1
    let after := before.reactAll events
    after.component.settings.values = before.component.settings.values ∧ after.selected = before.selected ∧
      after.visible = false ∧ (∀ name, after.engine.setting name = before.engine.setting name) ∧
      after.engine.history = before.engine.history ∧
      ∀ front back, events = front ++ .frame :: back → (before.reactAll front).update.value.2 = 0 := by
  intro before after
  have hidle : before.Idle := by
    rw [frame_update] at hdue
    exact hr.attended.idle_update (by omega)
  obtain ⟨n, hafter⟩ : ∃ n, after = { before with frame := n } := hidle.reactAll hhidden hkeys
  rw [hafter]
  refine ⟨rfl, rfl, hhidden, fun _ => rfl, rfl, ?_⟩
  rintro front back rfl
  obtain ⟨m, hfront⟩ : ∃ m, before.reactAll front = { before with frame := m } :=
    hidle.reactAll hhidden fun hmem => hkeys (by simp [hmem])
  rw [hfront, (hidle.at_frame m).update]

/-- A host after one frame, with a panel hidden from the start and an engine that replies in the second frame. -/
def hiddenFromStart : Host :=
  (new { panel := { startVisible := false }, bridge := { replyDelayFrames := 2 } }).value.play [.update]

theorem hidden_panel_ignores_edits :
    hiddenFromStart.Reached ∧ max 1 hiddenFromStart.delay ≤ hiddenFromStart.update.value.1.frame ∧
      hiddenFromStart.update.value.1.visible = false ∧
      .key .h true ∉ [Event.key .arrowUp true, .frame, .key .h false, .key .r true, .frame] ∧
      (hiddenFromStart.update.value.1.reactAll
        [.key .arrowUp true, .frame, .key .h false, .key .r true, .frame]).engine.history =
        hiddenFromStart.update.value.1.engine.history ∧
      (hiddenFromStart.update.value.1.reactAll [.key .arrowUp true]).update.value.2 = 0 := by
  have hr : hiddenFromStart.Reached := .next (.new _) .update
  obtain ⟨hdelay, hframe⟩ := clock_new { panel := { startVisible := false }, bridge := { replyDelayFrames := 2 } }
    [.update]
  have hdue : max 1 hiddenFromStart.delay ≤ hiddenFromStart.update.value.1.frame := by
    rw [frame_update, hiddenFromStart, hdelay, hframe]
    decide
  have hhidden : hiddenFromStart.update.value.1.visible = false := by
    rw [visible_update, hiddenFromStart, play_cons]
    exact visible_update _
  have hkeys : .key .h true ∉ [Event.key .arrowUp true, .frame, .key .h false, .key .r true, .frame] := by simp
  obtain ⟨-, -, -, -, hhistory, hwrites⟩ := hidden_panel_is_inert hr hdue hhidden _ hkeys
  exact ⟨hr, hdue, hhidden, hkeys, hhistory, hwrites _ _ rfl⟩

end Host

end CameraPanel
