import CameraPanel.Proofs.EngineHydration
import CameraPanel.Proofs.HostSession

/-!
# When the host hydrates its panel

The host reads all fields at the start, and the engine replies from the frame on that its delay names, but not before
the first frame.  Up to that frame the host awaits the answers (`awaiting_play`); the frame itself hydrates every field
(`hydrated_due`).  A reset before that frame hydrates the fields instead, and the answers come too late.
-/

namespace CameraPanel

namespace Host

/-! ### Frames -/

def Step.isFrame : Step → Bool
  | .update => true
  | .apply _ => false

/-- The number of frames among some steps. -/
def frames (steps : List Step) : Nat := steps.countP Step.isFrame

/-- The frame that hydrates the panel. -/
def dueFrame (o : Options) : Nat := max 1 o.bridge.replyDelayFrames.toNat

private theorem frames_append (steps later : List Step) : frames (steps ++ later) = frames steps + frames later :=
  List.countP_append

theorem clock_next (h : Host) (st : Step) :
    (h.next st).1.delay = h.delay ∧ (h.next st).1.frame = h.frame + frames [st] := by
  cases st with
  | apply a => cases a <;> exact ⟨rfl, rfl⟩
  | update =>
    have hreply : ∀ h : Host, h.reply.value.delay = h.delay ∧ h.reply.value.frame = h.frame := by
      intro h
      unfold reply
      split
      · simp only
        split <;> exact ⟨rfl, rfl⟩
      · exact ⟨rfl, rfl⟩
    exact hreply { h with frame := h.frame + 1 }

private theorem clock_play (h : Host) (steps : List Step) :
    (h.play steps).delay = h.delay ∧ (h.play steps).frame = h.frame + frames steps := by
  induction steps generalizing h with
  | nil => exact ⟨rfl, rfl⟩
  | cons st rest ih =>
    obtain ⟨hdelay, hframe⟩ := clock_next h st
    obtain ⟨hdelay', hframe'⟩ := ih (h.next st).1
    have hcount := frames_append [st] rest
    rw [List.singleton_append] at hcount
    rw [play_cons]
    exact ⟨hdelay'.trans hdelay, by omega⟩

theorem clock_new (o : Options) (steps : List Step) :
    ((new o).value.play steps).delay = o.bridge.replyDelayFrames.toNat ∧
      ((new o).value.play steps).frame = frames steps := by
  obtain ⟨hdelay, hframe⟩ := clock_play (new o).value steps
  have hstart : (new o).value.frame = 0 := rfl
  exact ⟨hdelay, by omega⟩

/-! ### Up to the frame that is due -/

private theorem idle_sessionSteps {h : Host} {deferred : Bool} {st : Step} (hreset : st ≠ .apply .reset)
    (hframe : st = .update → deferred = true ∧ h.frame + 1 < h.delay) :
    ∀ inner ∈ h.sessionSteps st, inner.idle deferred = true := by
  cases st with
  | apply a => cases a <;> simp_all [sessionSteps, Session.Step.idle]
  | update =>
    obtain ⟨rfl, hlt⟩ := hframe rfl
    have hbefore : h.beforeDigest = [.run] := if_neg (by omega)
    simp [sessionSteps, hbefore, Session.Step.idle]

/-- A frame before the one that is due leaves the answers with an engine that defers them. -/
private theorem frame_lt_delay (o : Options) {steps : List Step} (hframes : frames steps + 1 < dueFrame o) :
    decide (0 < o.bridge.replyDelayFrames.toNat) = true ∧
      ((new o).value.play steps).frame + 1 < ((new o).value.play steps).delay := by
  obtain ⟨hdelay, hframe⟩ := clock_new o steps
  rw [dueFrame] at hframes
  rw [decide_eq_true_iff]
  omega

private theorem awaiting_play (o : Options) {steps : List Step} (hreset : .apply .reset ∉ steps)
    (hframes : frames steps < dueFrame o) :
    ((new o).value.play steps).session.Awaiting (.ofOffsets o.bridge.seed)
      (decide (0 < o.bridge.replyDelayFrames.toNat)) := by
  induction steps using List.reverseRecOn with
  | nil =>
    show (new o).value.session.Awaiting _ _
    rw [session_new]
    exact Session.awaiting_readAll _ _ o.panel.startVisible
  | append_singleton steps st ih =>
    rw [frames_append] at hframes
    have hawaiting := ih (fun hmem => hreset (by simp [hmem])) (by omega)
    rw [play_concat, session_next]
    refine hawaiting.play (idle_sessionSteps (fun heq => hreset (by simp [heq])) ?_)
    rintro rfl
    exact frame_lt_delay o hframes

private theorem beforeDigest_due (o : Options) {steps : List Step} (hframes : frames steps + 1 = dueFrame o) :
    ((new o).value.play steps).beforeDigest = [.remote .answerAll, .run] := by
  obtain ⟨hdelay, hframe⟩ := clock_new o steps
  rw [dueFrame] at hframes
  exact if_pos (by omega)

private theorem arrived_due (o : Options) {steps : List Step} (hreset : .apply .reset ∉ steps)
    (hframes : frames steps + 1 = dueFrame o) :
    (((new o).value.play steps).session.play Engine.serve ((new o).value.play steps).beforeDigest).Arrived
      (.ofOffsets o.bridge.seed) := by
  rw [beforeDigest_due o hframes]
  exact (awaiting_play o hreset (by omega)).run_answerAll

private theorem update_result (h : Host) {n : Nat}
    (hresult : (h.session.play Engine.serve h.beforeDigest).digest.value.2 = some n) : h.update.value.2 = n :=
  Option.some.inj (h.session_update.2.symm.trans hresult)

/-- No frame writes up to the one that is due. -/
private theorem writes_due (o : Options) {steps : List Step} (hreset : .apply .reset ∉ steps)
    (hframes : frames steps < dueFrame o) : ((new o).value.play steps).update.value.2 = 0 := by
  apply update_result
  rcases Nat.lt_or_ge (frames steps + 1) (dueFrame o) with hlt | hge
  · have hidle : ∀ inner ∈ ((new o).value.play steps).sessionSteps .update, inner.idle _ = true :=
      idle_sessionSteps (by simp) fun _ => frame_lt_delay o hlt
    refine ((awaiting_play o hreset hframes).play fun inner hinner => hidle inner ?_).digest_result
    exact List.mem_append_left _ hinner
  · exact (arrived_due o hreset (by omega)).digest_result

/-- The frame that is due hydrates the panel. -/
private theorem hydrated_due (o : Options) {steps : List Step} (hreset : .apply .reset ∉ steps)
    (hframes : frames steps + 1 = dueFrame o) :
    ((new o).value.play (steps ++ [.update])).session.Hydrated (.ofOffsets o.bridge.seed) := by
  have hsession := ((new o).value.play steps).session_update.1
  rw [play_concat]
  show ((new o).value.play steps).update.value.1.session.Hydrated _
  rw [hsession]
  exact (arrived_due o hreset hframes).digest

/-- Up to the frame that is due, the engine receives the reads and nothing else. -/
private theorem history_due (o : Options) {steps : List Step} (hreset : .apply .reset ∉ steps)
    (hframes : frames steps < dueFrame o) :
    ((new o).value.play (steps ++ [.update])).engine.history = Field.all.map readChunk := by
  rcases Nat.lt_or_ge (frames steps + 1) (dueFrame o) with hlt | hge
  · have hframes' : frames (steps ++ [.update]) < dueFrame o := by
      rw [frames_append]
      exact hlt
    exact (awaiting_play o (by simpa using hreset) hframes').history rfl
  · exact (hydrated_due o hreset (by omega)).history rfl

/-! ### After a reset -/

/-- What some steps are for the session. -/
def sessionRun (h : Host) : List Step → List (Session.Step Occasion)
  | [] => []
  | st :: rest => h.sessionSteps st ++ (h.next st).1.sessionRun rest

private theorem session_play (h : Host) (steps : List Step) :
    (h.play steps).session = h.session.play Engine.serve (h.sessionRun steps) := by
  induction steps generalizing h with
  | nil => rfl
  | cons st rest ih => rw [play_cons, ih, session_next, sessionRun, Session.play_append]

private theorem field_after_reset {h : Host} (hm : h.session.Mounted) (steps : List Step) (k : Field) :
    (h.play (.apply .reset :: steps)).field k =
      Session.lastGiven k ((h.next (.apply .reset)).1.sessionRun steps) := by
  obtain ⟨c, e, p, mounts, hplay, hgiven⟩ :=
    Session.given_play Engine.serve hm ((h.next (.apply .reset)).1.sessionRun steps)
  have hsession : (h.play (.apply .reset :: steps)).session = _ := session_play h (.apply .reset :: steps)
  show (h.play (.apply .reset :: steps)).session.field k = _
  rw [hsession]
  show (h.session.play Engine.serve (.reset :: (h.next (.apply .reset)).1.sessionRun steps)).field k = _
  rw [hplay]
  exact hgiven.field k

private theorem sessionRun_concat (h : Host) (steps : List Step) (st : Step) :
    h.sessionRun (steps ++ [st]) = h.sessionRun steps ++ (h.play steps).sessionSteps st := by
  induction steps generalizing h with
  | nil => simp [sessionRun, play]
  | cons st' rest ih => rw [List.cons_append, sessionRun, ih, sessionRun, play_cons, List.append_assoc]

/-- A frame gives nothing to a field. -/
private theorem lastGiven_update (h : Host) (inner : List (Session.Step Occasion)) (k : Field) :
    Session.lastGiven k (inner ++ h.sessionSteps .update) = Session.lastGiven k inner := by
  rw [sessionSteps, beforeDigest]
  split <;> simp [Session.lastGiven, Session.Step.gives, List.findSome?_cons]

/-- Up to the frame that is due, the first one or the one that the delay of the replies names, no field is hydrated and
no frame writes, unless there is a reset.  The frame that is due puts the decoded reply for each setting in place of
whatever was edited; nothing stands for a setting that is not finite.  After a reset no frame changes a field: each one
holds what it was given last since then. -/
theorem hydrates_when_due (o : Options) (steps : List Step) :
    (.apply .reset ∉ steps → frames steps < max 1 o.bridge.replyDelayFrames.toNat →
      (∀ k, ((new o).value.play steps).component.settings.isHydrated k = false) ∧
        ((new o).value.play steps).update.value.2 = 0 ∧
        ((new o).value.play (steps ++ [.update])).engine.history = Field.all.map readChunk) ∧
    (.apply .reset ∉ steps → frames steps + 1 = max 1 o.bridge.replyDelayFrames.toNat → ∀ k,
      ((new o).value.play (steps ++ [.update])).component.settings.isHydrated k = true ∧
        Reply.decode (Reply.encode (o.bridge.seed.get k)) = .ok (((new o).value.play (steps ++ [.update])).field k) ∧
        (((new o).value.play (steps ++ [.update])).field k = none ↔ (o.bridge.seed.get k).isFinite = false)) ∧
    (∀ before after, steps = before ++ .apply .reset :: after → ∀ k,
      ((new o).value.play (steps ++ [.update])).field k = ((new o).value.play steps).field k ∧
        ((new o).value.play steps).field k =
          Session.lastGiven k (((new o).value.play (before ++ [.apply .reset])).sessionRun after)) := by
  refine ⟨?_, ?_, ?_⟩
  · intro hreset hframes
    exact ⟨(awaiting_play o hreset hframes).unhydrated rfl, writes_due o hreset hframes, history_due o hreset hframes⟩
  · intro hreset hframes k
    have hhydrated := hydrated_due o hreset hframes
    have hfield : ((new o).value.play (steps ++ [.update])).field k = _ := hhydrated.field k
    refine ⟨hhydrated.isHydrated rfl k, ?_⟩
    rw [hfield, Engine.answerFor_ofOffsets]
    cases hfinite : (o.bridge.seed.get k).isFinite with
    | false =>
      rw [Reply.decode_encode_of_not_finite hfinite]
      exact ⟨rfl, fun _ => rfl, fun _ => rfl⟩
    | true =>
      obtain ⟨w, -, hdecode⟩ := Reply.exists_decode_encode hfinite
      rw [hdecode]
      exact ⟨rfl, nofun, nofun⟩
  · rintro before after rfl k
    have hm := mounted_play (mounted_new o) before
    have hsplit : ∀ later, (new o).value.play (before ++ .apply .reset :: later) =
        ((new o).value.play before).play (.apply .reset :: later) := fun _ => List.foldl_append
    rw [List.append_assoc, List.cons_append, hsplit, hsplit, field_after_reset hm, field_after_reset hm,
      sessionRun_concat, lastGiven_update, play_concat]
    exact ⟨rfl, rfl⟩

end Host

end CameraPanel
