import CameraPanel.Proofs.Quiet

/-!
# The chain of reported changes

A cell that is asked for one thing after the other gives a log: for each step what it was given and what it answered.
The log alone tells the state of the cell (`Tells`).  The cell is hydrated once it was hydrated or given a synced value,
its current value is the last one that it was given, and its baseline is the last value that was *settled*: by the
hydration that was applied, by a synced value, or by a reported change.

So the reported changes form a chain.  Each starts at the value that was settled last, which is where the change before
it ended unless a hydration or a synced value came in between; edits, cleared values, ignored hydrations and
observations without a report do not break it.
-/

namespace CameraPanel.Cell

variable {F : Format}

/-! ### Steps and their log -/

inductive Step (F : Format) where
  | assign (value : Option (Binary F))
  | hydrate (value : Option (Binary F))
  | assignSynced (value : Binary F)
  | observe

/-- A step as it is seen from outside: what the cell was given, and what it answered. -/
inductive Event (F : Format) where
  | assigned (value : Option (Binary F)) (changed : Bool)
  | hydrated (value : Option (Binary F)) (applied : Bool)
  | synced (value : Binary F)
  | observed (change : Option (Change F))
deriving DecidableEq

def step (c : Cell F) : Step F → Cell F
  | .assign value => c.assign value
  | .hydrate value => c.hydrate value
  | .assignSynced value => c.assignSynced value
  | .observe => c.observe

def event (c : Cell F) : Step F → Event F
  | .assign value => .assigned value (c.changes value)
  | .hydrate value => .hydrated value !c.hydrated
  | .assignSynced value => .synced value
  | .observe => .observed c.change?

def run (c : Cell F) (steps : List (Step F)) : Cell F := steps.foldl step c

/-- The events of a run, oldest first. -/
def log (c : Cell F) : List (Step F) → List (Event F)
  | [] => []
  | st :: rest => c.event st :: (c.step st).log rest

private theorem log_append (c : Cell F) (steps later : List (Step F)) :
    c.log (steps ++ later) = c.log steps ++ (c.run steps).log later := by
  induction steps generalizing c with
  | nil => rfl
  | cons st rest ih => exact congrArg (c.event st :: ·) (ih _)

/-! ### What a log tells -/

namespace Event

/-- The current value that an event gives the cell, if it gives one. -/
def gives? : Event F → Option (Option (Binary F))
  | assigned value _ => some value
  | hydrated value true => some value
  | synced value => some (some value)
  | _ => none

/-- The baseline that an event settles, if it settles one. -/
def settles? : Event F → Option (Option (Binary F))
  | hydrated value true => some value
  | synced value => some (some value)
  | observed (some change) => some (some change.new)
  | _ => none

/-- After such an event the cell is hydrated. -/
def opens : Event F → Bool
  | hydrated _ _ | synced _ => true
  | _ => false

/-- A hydration that was applied. -/
def hydrates : Event F → Bool
  | hydrated _ applied => applied
  | _ => false

private theorem opens_of_hydrates {e : Event F} (h : e.hydrates = true) : e.opens = true := by
  cases e with
  | hydrated value applied => rfl
  | _ => cases h

end Event

/-- What the most recent event has of those that have something. -/
def latest {α : Type} (has? : Event F → Option α) (past : List (Event F)) : Option α := past.reverse.findSome? has?

private theorem latest_concat {α : Type} (has? : Event F → Option α) (past : List (Event F)) (e : Event F) :
    latest has? (past ++ [e]) = (has? e).or (latest has? past) := by
  rw [latest, List.reverse_append, List.findSome?_append]
  cases h : has? e <;> simp [h, latest]

private theorem latest_of_last {α : Type} (has? : Event F → Option α) {e : Event F} {a : α} (he : has? e = some a)
    (front : List (Event F)) {back : List (Event F)} (hback : ∀ e' ∈ back, has? e' = none) :
    latest has? (front ++ e :: back) = some a := by
  rw [latest, List.findSome?_eq_some_iff]
  refine ⟨back.reverse, e, front.reverse, by simp, he, ?_⟩
  intro e' he'
  exact hback e' (List.mem_reverse.1 he')

/-- The state of a cell as its log tells it.  At most one hydration was applied. -/
structure Tells (past : List (Event F)) (c : Cell F) : Prop where
  current : c.current = (latest Event.gives? past).getD none
  baseline : c.baseline = (latest Event.settles? past).getD none
  hydrated : c.hydrated = past.any Event.opens
  once : past.countP Event.hydrates ≤ 1

private theorem tells_new : Tells [] (new : Cell F) := ⟨rfl, rfl, rfl, Nat.zero_le 1⟩

namespace Tells

variable {past : List (Event F)} {c : Cell F}

/-- As long as the cell is not hydrated, no hydration was applied. -/
private theorem none_applied (h : Tells past c) (hc : c.hydrated = false) : past.countP Event.hydrates = 0 := by
  rw [List.countP_eq_zero]
  intro e he happlied
  have hany : past.any Event.opens = true := List.any_eq_true.2 ⟨e, he, Event.opens_of_hydrates happlied⟩
  rw [← h.hydrated, hc] at hany
  cases hany

private theorem assign (h : Tells past c) (value : Option (Binary F)) (changed : Bool) :
    Tells (past ++ [.assigned value changed]) (c.assign value) where
  current := by rw [latest_concat]; rfl
  baseline := by rw [latest_concat]; exact h.baseline
  hydrated := by simpa [Event.opens, Cell.assign] using h.hydrated
  once := by simpa [Event.hydrates] using h.once

private theorem hydrate (h : Tells past c) (value : Option (Binary F)) :
    Tells (past ++ [.hydrated value !c.hydrated]) (c.hydrate value) := by
  cases hc : c.hydrated with
  | true =>
    rw [hydrate_of_hydrated hc]
    exact {
      current := by rw [latest_concat]; exact h.current
      baseline := by rw [latest_concat]; exact h.baseline
      hydrated := by simp [Event.opens, hc]
      once := by simpa [Event.hydrates] using h.once }
  | false =>
    -- This is the one hydration that is applied: until now there was none.
    rw [hydrate_of_not_hydrated hc]
    exact {
      current := by rw [latest_concat]; rfl
      baseline := by rw [latest_concat]; rfl
      hydrated := by simp [Event.opens]
      once := by simp [Event.hydrates, h.none_applied hc] }

private theorem assignSynced (h : Tells past c) (value : Binary F) :
    Tells (past ++ [.synced value]) (c.assignSynced value) where
  current := by rw [latest_concat]; rfl
  baseline := by rw [latest_concat]; rfl
  hydrated := by simp [Event.opens, Cell.assignSynced]
  once := by simpa [Event.hydrates] using h.once

private theorem observe (h : Tells past c) : Tells (past ++ [.observed c.change?]) c.observe where
  current := by rw [current_observe, latest_concat]; exact h.current
  baseline := by
    rw [latest_concat]
    rcases hc : c.change? with _ | change
    · rw [observe_of_quiet hc]
      exact h.baseline
    · rw [observe_of_change hc]
      rfl
  hydrated := by simpa [Event.opens] using h.hydrated
  once := by simpa [Event.hydrates] using h.once

private theorem step (h : Tells past c) (st : Step F) : Tells (past ++ [c.event st]) (c.step st) := by
  cases st with
  | assign value => exact h.assign value _
  | hydrate value => exact h.hydrate value
  | assignSynced value => exact h.assignSynced value
  | observe => exact h.observe

private theorem run (h : Tells past c) (steps : List (Step F)) : Tells (past ++ c.log steps) (c.run steps) := by
  induction steps generalizing past c with
  | nil => rwa [log, List.append_nil]
  | cons st rest ih =>
    have hrest := ih (h.step st)
    rwa [List.append_assoc] at hrest

end Tells

/-! ### The chain -/

/-- Whatever a new cell is asked for, an observation reports the current value, as it was given last, exactly if the
cell is hydrated and the value is not the same as the baseline, and what it reports as old is the baseline: the value
that the one applied hydration, a synced value or a reported change settled last.  So a change starts where the one
before it ended if nothing was settled in between.  An observation of a cell that is not hydrated or has no value leaves
it as it is, and after every other one the baseline is the same as the current value. -/
theorem reported_changes_form_chain (before after : List (Step F)) :
    let c : Cell F := new.run before
    let past : List (Event F) := new.log before
    new.log (before ++ .observe :: after) = past ++ .observed c.change? :: c.observe.log after ∧
    (c.current = (latest Event.gives? past).getD none ∧ c.hydrated = past.any Event.opens) ∧
    (c.baseline = (latest Event.settles? past).getD none ∧ past.countP Event.hydrates ≤ 1) ∧
    (∀ change, c.change? = some change ↔ c.hydrated = true ∧ c.current = some change.new ∧ c.baseline = change.old ∧
      sameValue change.old (some change.new) = false) ∧
    (∀ front previous between change, past = front ++ .observed (some previous) :: between →
      (∀ e ∈ between, e.settles? = none) → c.change? = some change → change.old = some previous.new) ∧
    (c.hydrated = false ∨ c.current = none → c.change? = none ∧ c.observe = c) ∧
    ∀ v, c.hydrated = true → c.current = some v → sameValue c.observe.baseline (some v) = true := by
  intro c past
  have htells : Tells past c := tells_new.run before
  refine ⟨log_append new before _, ⟨htells.current, htells.hydrated⟩, ⟨htells.baseline, htells.once⟩,
    fun change => change?_eq_some_iff, ?_, ?_, ?_⟩
  · intro front previous between change hpast hbetween hchange
    obtain ⟨-, -, hold, -⟩ := change?_eq_some_iff.1 hchange
    have hlatest : latest Event.settles? past = some (some previous.new) := by
      rw [hpast]
      exact latest_of_last Event.settles? rfl front hbetween
    rw [← hold, htells.baseline, hlatest]
    rfl
  · intro hsilent
    have hquiet : c.Quiet := hsilent.elim quiet_of_not_hydrated quiet_of_unset
    exact ⟨hquiet, observe_of_quiet hquiet⟩
  · intro v hhydrated hcurrent
    exact quiet_iff.1 c.quiet_observe v (by rwa [hydrated_observe]) (by rwa [current_observe])

-- The other zero is no change, a cleared value keeps the baseline, and not-a-number is reported once.
example :
    (new : Cell .double).log [.hydrate (some (.zero false)), .assign (some (.zero true)), .observe, .assign none,
        .observe, .hydrate (some .nan), .assign (some .nan), .observe, .assign (some .nan), .observe] =
      [.hydrated (some (.zero false)) true, .assigned (some (.zero true)) false, .observed none, .assigned none true,
        .observed none, .hydrated (some .nan) false, .assigned (some .nan) true,
        .observed (some ⟨some (.zero false), .nan⟩), .assigned (some .nan) false, .observed none] := by
  decide

end CameraPanel.Cell
