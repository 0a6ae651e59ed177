import CameraPanel.Host
import CameraPanel.Proofs.EngineSide
import CameraPanel.Proofs.WriteTrace

/-!
# The host as a session

The host drives one session: the panel that it mounts first, on its engine.  Each step of the host is a short list of
steps of that session (`Host.sessionSteps`), so that what holds of all sessions holds of the host.  A frame lets the
engine answer once the delay is over, runs the pool and digests; the other steps are at most one edit, reset or toggle.
-/

namespace CameraPanel

namespace Host

/-- What the program does with the host. -/
inductive Step where
  | apply (a : Action)
  | update

/-- What the program knows of a step afterwards: a frame tells the number of its writes. -/
inductive Outcome where
  | applied (a : Action)
  | updated (writes : Nat)

def next (h : Host) : Step → Host × Outcome
  | .apply a => ((h.apply a).value, .applied a)
  | .update => (h.update.value.1, .updated h.update.value.2)

def play (h : Host) (steps : List Step) : Host := steps.foldl (fun h st => (h.next st).1) h

def outcomes (h : Host) : List Step → List Outcome
  | [] => []
  | st :: rest => (h.next st).2 :: (h.next st).1.outcomes rest

theorem play_cons (h : Host) (st : Step) (rest : List Step) : h.play (st :: rest) = (h.next st).1.play rest := rfl

theorem play_concat (h : Host) (steps : List Step) (st : Step) : h.play (steps ++ [st]) = ((h.play steps).next st).1 :=
  List.foldl_append

/-! ### Sessions -/

/-- The session of the panel on the engine. -/
def session (h : Host) : Session Engine := .linked (some h.component) h.engine h.pool 1

/-- What happens in a frame before the digest. -/
def beforeDigest (h : Host) : List (Session.Step Occasion) :=
  if h.delay ≤ h.frame + 1 then [.remote .answerAll, .run] else [.run]

/-- What a step is for the session. -/
def sessionSteps (h : Host) : Step → List (Session.Step Occasion)
  | .apply (.nudge steps) =>
    [.edit h.selected (some (nudged ((h.field h.selected).getD h.selected.default) steps h.step))]
  | .apply .clear => [.edit h.selected none]
  | .apply .reset => [.reset]
  | .apply .toggle => [.toggle]
  | .apply (.select _) | .apply .exit => []
  | .update => h.beforeDigest ++ [.digest]

theorem session_new (o : Options) :
    (new o).value.session =
      (Session.new (Engine.new (.ofOffsets o.bridge.seed) (decide (0 < o.bridge.replyDelayFrames.toNat)))
        o.panel.startVisible).step Engine.serve .readAll := rfl

private theorem session_reply (h : Host) :
    h.reply.value.session =
      if h.delay ≤ h.frame then h.session.step Engine.serve (.remote .answerAll) else h.session := by
  unfold reply
  split
  · simp only
    split <;> rfl
  · rfl

/-- The session after a frame, and what the digest of the frame tells. -/
theorem session_update (h : Host) :
    h.update.value.1.session = (h.session.play Engine.serve h.beforeDigest).digest.value.1 ∧
      (h.session.play Engine.serve h.beforeDigest).digest.value.2 = some h.update.value.2 := by
  let h' : Host := (reply { h with frame := h.frame + 1 }).value
  have hbefore : h.session.play Engine.serve h.beforeDigest = h'.session.run.value := by
    have hreply : h'.session = _ := session_reply { h with frame := h.frame + 1 }
    rw [hreply, beforeDigest]
    by_cases hdelay : h.delay ≤ h.frame + 1
    · rw [if_pos hdelay, if_pos hdelay]
      rfl
    · rw [if_neg hdelay, if_neg hdelay]
      rfl
  rw [hbefore]
  exact ⟨rfl, rfl⟩

theorem session_next (h : Host) (st : Step) :
    (h.next st).1.session = h.session.play Engine.serve (h.sessionSteps st) := by
  cases st with
  | apply a => cases a <;> rfl
  | update =>
    rw [sessionSteps, Session.play_concat]
    exact h.session_update.1

theorem readAll_not_mem_sessionSteps (h : Host) (st : Step) : .readAll ∉ h.sessionSteps st := by
  cases st with
  | apply a => cases a <;> simp [sessionSteps]
  | update =>
    show .readAll ∉ h.beforeDigest ++ [.digest]
    unfold beforeDigest
    split <;> simp

/-! ### The panel stays mounted -/

theorem ofPanel_of_mounted {h : Host} (hm : h.session.Mounted) : h.component.settings.OfPanel := by
  obtain ⟨c, r, p, mounts, heq, hc⟩ := hm
  cases heq
  exact hc

theorem mounted_next {h : Host} (hm : h.session.Mounted) (st : Step) : (h.next st).1.session.Mounted := by
  rw [session_next]
  exact hm.play Engine.serve _

theorem mounted_play {h : Host} (hm : h.session.Mounted) (steps : List Step) : (h.play steps).session.Mounted := by
  induction steps generalizing h with
  | nil => exact hm
  | cons st rest ih => exact ih (mounted_next hm st)

theorem mounted_new (o : Options) : (new o).value.session.Mounted := by
  rw [session_new]
  exact (Session.mounted_new _ _).step Engine.serve .readAll

end Host

end CameraPanel
