import CameraPanel.Proofs.Answers

/-!
# Agreement of the panel and the store

Panels are mounted one after the other on one store, and nothing but the mounted panel writes to it.  What a panel takes
for agreed is then what the store holds.  A read is answered with the value of its moment, and the result may be applied
much later; but as long as its field is not hydrated nobody writes the field, so the result is still right when it
counts, and once the field is hydrated the result does not count.  This is the invariant `Agrees`.  That an answer
reaches a task of the field it is for, and no task of a later panel, is kept by `Tickets` and by the mount numbers.
-/

namespace CameraPanel

/-! ### The invariant -/

/-- Tickets are not used twice, and a waiting read is answered for the field of its task. -/
structure Tickets (store : Store) (p : Pool) : Prop where
  pending_lt : ∀ e ∈ store.pending, e.2 < store.reads
  waits_lt : ∀ t ∈ p.tasks, ∀ n, t.reading = .later n → n < store.reads
  waits_for : ∀ t ∈ p.tasks, ∀ k n, t.reading = .later n → (k, n) ∈ store.pending → t.field = k

/-- What the panel takes for agreed is stored, and so is each result that can still hydrate a field. -/
structure Agrees (c : Component) (store : Store) (p : Pool) : Prop where
  ofPanel : c.settings.OfPanel
  baseline : ∀ k w, c.settings.isHydrated k = true → (c.settings.cells.get k).baseline = some w →
    store.value k = some w
  waiting : ∀ k w, c.settings.isHydrated k = false → (k, some w) ∈ c.settings.waiting → store.value k = some w
  answered : ∀ t ∈ p.tasks, ∀ w, t.mount = c.mount → c.settings.isHydrated t.field = false →
    t.reading = .now (.ok (some w)) → store.value t.field = some w

/-- The invariant of a session on a store. -/
structure Coherent (component : Option Component) (store : Store) (p : Pool) (mounts : Nat) : Prop where
  tickets : Tickets store p
  mounted : ∀ t ∈ p.tasks, t.mount < mounts
  panel : ∀ c, component = some c → c.mount < mounts ∧ Agrees c store p

/-! ### Fewer tasks -/

private theorem Tickets.of_subset {store : Store} {p p' : Pool} (h : Tickets store p) (hp : ∀ t ∈ p'.tasks, t ∈ p.tasks)
    :
    Tickets store p' where
  pending_lt := h.pending_lt
  waits_lt t ht := h.waits_lt t (hp t ht)
  waits_for t ht := h.waits_for t (hp t ht)

private theorem Agrees.of_subset {c : Component} {store : Store} {p p' : Pool} (h : Agrees c store p)
    (hp : ∀ t ∈ p'.tasks, t ∈ p.tasks) : Agrees c store p' :=
  { h with answered := fun t ht => h.answered t (hp t ht) }

private theorem Coherent.of_subset {component : Option Component} {store : Store} {p p' : Pool} {mounts : Nat}
    (h : Coherent component store p mounts) (hp : ∀ t ∈ p'.tasks, t ∈ p.tasks) :
    Coherent component store p' mounts where
  tickets := h.tickets.of_subset hp
  mounted t ht := h.mounted t (hp t ht)
  panel c hc := ⟨(h.panel c hc).1, (h.panel c hc).2.of_subset hp⟩

/-! ### Answers -/

private theorem Tickets.answers {store store' : Store} {p : Pool} {ds : List (Delivery Answer)} (h : Tickets store p)
    (ha : store.Answers store' ds) : Tickets store' (p.deliverAll ds) := by
  refine ⟨?_, ?_, ?_⟩
  · intro e he
    rw [ha.reads]
    exact h.pending_lt e (ha.pending e he)
  · intro t ht n hn
    rw [ha.reads]
    obtain ⟨t₀, h₀, rfl | ⟨d, -, -, rfl⟩⟩ := Pool.mem_tasks_deliverAll ht
    · exact h.waits_lt t h₀ n hn
    · cases hn
  · intro t ht k n hn hk
    obtain ⟨t₀, h₀, rfl | ⟨d, -, -, rfl⟩⟩ := Pool.mem_tasks_deliverAll ht
    · exact h.waits_for t h₀ k n hn (ha.pending _ hk)
    · cases hn

private theorem Agrees.answers {c : Component} {store store' : Store} {p : Pool} {ds : List (Delivery Answer)}
    (h : Agrees c store p) (ht : Tickets store p) (ha : store.Answers store' ds) :
    Agrees c store' (p.deliverAll ds) := by
  have hvalue : ∀ k, store'.value k = store.value k := fun k => by rw [Store.value, ha.values, Store.value]
  refine ⟨h.ofPanel, ?_, ?_, ?_⟩
  · intro k w hh hw
    rw [hvalue]
    exact h.baseline k w hh hw
  · intro k w hh hw
    rw [hvalue]
    exact h.waiting k w hh hw
  · intro t hmem w hmount hh hw
    rw [hvalue]
    obtain ⟨t₀, h₀, rfl | ⟨d, hd, hlater, rfl⟩⟩ := Pool.mem_tasks_deliverAll hmem
    · exact h.answered t h₀ w hmount hh hw
    · -- The answer was given just now, for the field of the task.
      obtain ⟨k, hk, hhonest⟩ := ha.honest d hd
      have hfield : t₀.field = k := ht.waits_for t₀ h₀ k d.ticket hlater hk
      have hanswer : d.answer = .ok (some w) := Reading.now.inj hw
      show store.value t₀.field = some w
      rw [hfield]
      exact (hhonest _ hanswer).symm

private theorem Coherent.answers {component : Option Component} {store store' : Store} {p : Pool} {mounts : Nat}
    {ds : List (Delivery Answer)} (h : Coherent component store p mounts) (ha : store.Answers store' ds) :
    Coherent component store' (p.deliverAll ds) mounts := by
  refine ⟨h.tickets.answers ha, ?_, fun c hc => ⟨(h.panel c hc).1, (h.panel c hc).2.answers h.tickets ha⟩⟩
  intro t ht
  obtain ⟨t₀, h₀, rfl | ⟨d, -, -, rfl⟩⟩ := Pool.mem_tasks_deliverAll ht
  · exact h.mounted t h₀
  · exact h.mounted t₀ h₀

/-! ### Events of the panel -/

private theorem Tickets.sendAll {store : Store} {p : Pool} (h : Tickets store p) (writes : List (Field × Double)) :
    Tickets (sendAll store writes) p := by
  refine ⟨?_, ?_, ?_⟩
  · rw [Store.pending_sendAll, Store.reads_sendAll]
    exact h.pending_lt
  · rw [Store.reads_sendAll]
    exact h.waits_lt
  · rw [Store.pending_sendAll]
    exact h.waits_for

/-- The results of finished reads are stored, as far as they can still hydrate a field. -/
private theorem Agrees.arrivals {c : Component} {store : Store} {p : Pool} (h : Agrees c store p)
    {finished : List FinishedRead} (hf : ∀ f ∈ finished, ∃ t ∈ p.tasks, t.finished? = some f) {k : Field} {w : Double}
    (hh : c.settings.isHydrated k = false) (hw : (k, some w) ∈ arrivals c.mount finished) :
    store.value k = some w := by
  obtain ⟨f, hmem, heq⟩ := List.mem_map.1 hw
  obtain ⟨hmem, hmount⟩ := List.mem_filter.1 hmem
  obtain ⟨t, ht, hfinished⟩ := hf f hmem
  obtain ⟨hreading, htmount, hfield⟩ := ReadTask.finished?_eq_some_iff.1 hfinished
  obtain ⟨hk, hvalue⟩ := Prod.mk.inj heq
  have hanswer : f.answer = .ok (some w) := by
    cases ha : f.answer with
    | ok value =>
      rw [ha] at hvalue
      exact congrArg Except.ok hvalue
    | error e =>
      rw [ha] at hvalue
      cases hvalue
  have hk' : t.field = k := hfield.trans hk
  rw [← hk'] at hh ⊢
  exact h.answered t ht w (htmount.trans (of_decide_eq_true hmount).symm) hh (by rw [hreading, hanswer])

private theorem Agrees.after {c : Component} {store : Store} {p : Pool} (h : Agrees c store p) {e : PanelEvent}
    (hresults : ∀ results, e = .arrived results → ∀ k w, c.settings.isHydrated k = false → (k, some w) ∈ results →
      store.value k = some w) :
    Agrees { c with settings := c.settings.after e } (sendAll store (c.settings.sends e)) p := by
  -- As long as a field is not hydrated it is not written, so what was stored before the event is stored after it.
  have hkept : ∀ k, (c.settings.after e).isHydrated k = false →
      c.settings.isHydrated k = false ∧ (sendAll store (c.settings.sends e)).value k = store.value k := by
    intro k hh
    obtain ⟨hb, hw⟩ := h.ofPanel.not_hydrated_after hh
    exact ⟨hb, by rw [Store.value_sendAll, hw, Option.none_or]⟩
  refine ⟨h.ofPanel.after e, ?_, ?_, ?_⟩
  · intro k w hh hw
    rw [Store.value_sendAll]
    cases hlast : lastWrite (c.settings.sends e) k with
    | some v =>
      have hagreed := (h.ofPanel.agreed_of_sent hlast).2
      exact hagreed.symm.trans hw
    | none =>
      rw [Option.none_or]
      cases hb : c.settings.isHydrated k with
      | true =>
        have hsame := (h.ofPanel.agreed_of_not_sent hlast hb).2
        exact h.baseline k w hb (hsame.symm.trans hw)
      | false =>
        have hmem := h.ofPanel.hydrated_by_result hlast hb hh
        have hw' : ((c.settings.after e).cells.get k).baseline = some w := hw
        rw [hw'] at hmem
        exact h.waiting k w hb hmem
  · intro k w hh hw
    obtain ⟨hb, hstored⟩ := hkept k hh
    rw [hstored]
    rcases Settings.mem_waiting_after hw with hw | ⟨results, he, hw⟩
    · exact h.waiting k w hb hw
    · exact hresults results he k w hb hw
  · intro t ht w hmount hh hw
    obtain ⟨hb, hstored⟩ := hkept t.field hh
    rw [hstored]
    exact h.answered t ht w hmount hb hw

private theorem Coherent.after {c : Component} {store : Store} {p : Pool} {mounts : Nat}
    (h : Coherent (some c) store p mounts) {e : PanelEvent}
    (hresults : ∀ results, e = .arrived results → ∀ k w, c.settings.isHydrated k = false → (k, some w) ∈ results →
      store.value k = some w) :
    Coherent (some { c with settings := c.settings.after e }) (sendAll store (c.settings.sends e)) p mounts := by
  refine ⟨h.tickets.sendAll _, h.mounted, ?_⟩
  rintro c' ⟨⟩
  obtain ⟨hmount, hagrees⟩ := h.panel c rfl
  exact ⟨hmount, hagrees.after hresults⟩

/-! ### Reads -/

private theorem Tickets.read {store : Store} {p : Pool} (h : Tickets store p) (mount : Nat) (k : Field) :
    Tickets (store.read k).value.1 (p.start ⟨mount, k, (store.read k).value.2⟩) := by
  cases hd : store.deferred with
  | true =>
    rw [Store.read_of_deferred hd]
    -- The new ticket is above all that were given out before.
    refine ⟨?_, ?_, ?_⟩
    · intro e he
      rcases List.mem_append.1 he with he | he
      · exact Nat.lt_succ_of_lt (h.pending_lt e he)
      · rw [List.mem_singleton.1 he]
        exact Nat.lt_succ_self _
    · intro t ht n hn
      rcases Pool.mem_tasks_start.1 ht with rfl | ht
      · cases hn
        exact Nat.lt_succ_self _
      · exact Nat.lt_succ_of_lt (h.waits_lt t ht n hn)
    · intro t ht j n hn hj
      rcases Pool.mem_tasks_start.1 ht with rfl | ht <;> rcases List.mem_append.1 hj with hj | hj
      · cases hn
        exact absurd (h.pending_lt _ hj) (Nat.lt_irrefl _)
      · cases List.mem_singleton.1 hj
        rfl
      · exact h.waits_for t ht j n hn hj
      · cases List.mem_singleton.1 hj
        exact absurd (h.waits_lt t ht _ hn) (Nat.lt_irrefl _)
  | false =>
    rw [Store.read_of_not_deferred hd]
    refine ⟨?_, ?_, ?_⟩
    · intro e he
      exact Nat.lt_succ_of_lt (h.pending_lt e he)
    · intro t ht n hn
      rcases Pool.mem_tasks_start.1 ht with rfl | ht
      · cases hn
      · exact Nat.lt_succ_of_lt (h.waits_lt t ht n hn)
    · intro t ht j n hn hj
      rcases Pool.mem_tasks_start.1 ht with rfl | ht
      · cases hn
      · exact h.waits_for t ht j n hn hj

private theorem Agrees.read {c : Component} {store : Store} {p : Pool} (h : Agrees c store p) (k : Field) :
    Agrees c (store.read k).value.1 (p.start ⟨c.mount, k, (store.read k).value.2⟩) := by
  cases hd : store.deferred with
  | true =>
    rw [Store.read_of_deferred hd]
    refine { h with answered := ?_ }
    intro t ht w hmount hh hw
    rcases Pool.mem_tasks_start.1 ht with rfl | ht
    · cases hw
    · exact h.answered t ht w hmount hh hw
  | false =>
    rw [Store.read_of_not_deferred hd]
    refine { h with answered := ?_ }
    intro t ht w hmount hh hw
    rcases Pool.mem_tasks_start.1 ht with rfl | ht
    · exact Except.ok.inj (Reading.now.inj hw)
    · exact h.answered t ht w hmount hh hw

private theorem Coherent.read {c : Component} {store : Store} {p : Pool} {mounts : Nat}
    (h : Coherent (some c) store p mounts) (k : Field) :
    Coherent (some c) (store.read k).value.1 (p.start ⟨c.mount, k, (store.read k).value.2⟩) mounts := by
  obtain ⟨hmount, hagrees⟩ := h.panel c rfl
  refine ⟨h.tickets.read c.mount k, ?_, ?_⟩
  · intro t ht
    rcases Pool.mem_tasks_start.1 ht with rfl | ht
    · exact hmount
    · exact h.mounted t ht
  · rintro c' ⟨⟩
    exact ⟨hmount, hagrees.read k⟩

private theorem Coherent.startReads {c : Component} {store : Store} {p : Pool} {mounts : Nat}
    (h : Coherent (some c) store p mounts) (ks : List Field) :
    Coherent (some c) (c.startReads ks store p).value.1 (c.startReads ks store p).value.2 mounts := by
  induction ks generalizing store p with
  | nil => exact h
  | cons k rest ih => exact ih (h.read k)

/-! ### Panels that come and go -/

private theorem Coherent.unmounted {component : Option Component} {store : Store} {p : Pool} {mounts : Nat}
    (h : Coherent component store p mounts) : Coherent none store p mounts := by
  refine ⟨h.tickets, h.mounted, ?_⟩
  rintro c ⟨⟩

/-- A new panel has nothing to agree on, and no task in the pool is one of its own. -/
private theorem Coherent.mount {component : Option Component} {store : Store} {p : Pool} {mounts : Nat}
    (h : Coherent component store p mounts) (visible : Bool) :
    Coherent (some (.new mounts visible)) store p (mounts + 1) := by
  refine ⟨h.tickets, fun t ht => Nat.lt_succ_of_lt (h.mounted t ht), ?_⟩
  rintro c ⟨⟩
  refine ⟨Nat.lt_succ_self _, Component.ofPanel_new mounts visible, ?_, ?_, ?_⟩
  · intro k w hh _
    rw [Component.isHydrated_new] at hh
    cases hh
  · intro k w _ hw
    cases hw
  · intro t ht w hmount
    exact absurd hmount (Nat.ne_of_lt (h.mounted t ht))

/-! ### Runs -/

private theorem Coherent.moved {c : Component} {store : Store} {p : Pool} {mounts : Nat}
    (h : Coherent (some c) store p mounts) (st : Session.Step Store.Step) :
    Coherent (some { c with settings := c.settings.after ((Session.linked (some c) store p mounts).event st) })
      (Session.moved Store.act c store p st).1 (Session.moved Store.act c store p st).2 mounts := by
  have hnone : c.settings.after (.arrived []) = c.settings := by simp [Settings.after]
  have hfinished : ∀ finished, (∀ f ∈ finished, ∃ t ∈ p.tasks, t.finished? = some f) →
      Coherent (some { c with settings := c.settings.after (.arrived (arrivals c.mount finished)) }) store p
        mounts := by
    intro finished hf
    refine h.after (e := .arrived (arrivals c.mount finished)) ?_
    rintro results ⟨⟩ k w hh hw
    exact (h.panel c rfl).2.arrivals hf hh hw
  cases st with
  | readAll =>
    simp only [Session.event, hnone]
    exact h.startReads Field.all
  | run => exact (hfinished p.run.2 fun f => Pool.mem_run).of_subset fun t => Pool.mem_tasks_run
  | finish n => exact (hfinished (p.finish n).2 fun f => Pool.mem_finish).of_subset fun t => Pool.mem_tasks_finish
  | edit k value => exact h.after (e := .edited k value) (by rintro results ⟨⟩)
  | reset => exact h.after (e := .reset) (by rintro results ⟨⟩)
  | toggle => exact h.after (e := .toggled) (by rintro results ⟨⟩)
  | digest => exact h.after (e := .digested) (by rintro results ⟨⟩)
  | remote e =>
    simp only [Session.event, hnone]
    exact h.answers (Store.answers_act e store)

namespace Session

/-- The session has a store and a pool, and they are in step with the panel. -/
def InStep (s : Session Store) : Prop :=
  ∃ component store p mounts, s = linked component store p mounts ∧ Coherent component store p mounts

private theorem inStep_new (values : PerField (Option Double)) (writes : List (Field × Double))
    (deferred visible : Bool) :
    (Session.new { Store.empty deferred with values, writes } visible).InStep := by
  have hstart : Coherent none { Store.empty deferred with values, writes } .empty 0 := by
    refine ⟨⟨?_, ?_, ?_⟩, ?_, ?_⟩
    · intro e he
      cases he
    · intro t ht
      cases ht
    · intro t ht
      cases ht
    · intro t ht
      cases ht
    · rintro c ⟨⟩
  exact ⟨_, _, _, _, rfl, hstart.mount visible⟩

private theorem InStep.step {s : Session Store} (h : s.InStep) (st : Step Store.Step) :
    (s.step Store.act st).InStep := by
  obtain ⟨component, store, p, mounts, rfl, h⟩ := h
  cases component with
  | some c => exact ⟨_, _, _, mounts, step_linked Store.act c store p mounts st, h.moved st⟩
  | none =>
    cases st with
    | run => exact ⟨none, store, p.run.1, mounts, rfl, h.of_subset fun t => Pool.mem_tasks_run⟩
    | finish n => exact ⟨none, store, (p.finish n).1, mounts, rfl, h.of_subset fun t => Pool.mem_tasks_finish⟩
    | remote e => exact ⟨none, _, _, mounts, rfl, h.answers (Store.answers_act e store)⟩
    | _ => exact ⟨none, store, p, mounts, rfl, h⟩

private theorem InStep.lifeStep {s : Session Store} (h : s.InStep) (st : LifeStep Store.Step) :
    (s.lifeStep Store.act st).InStep := by
  cases st with
  | panel st => exact h.step st
  | unmount =>
    obtain ⟨component, store, p, mounts, rfl, h⟩ := h
    exact ⟨none, store, p, mounts, rfl, h.unmounted⟩
  | mount visible =>
    obtain ⟨component, store, p, mounts, rfl, h⟩ := h
    have hempty : ∀ t ∈ Pool.empty.tasks, t ∈ p.tasks := by
      intro t ht
      cases ht
    exact ⟨_, store, .empty, mounts + 1, rfl, (h.of_subset hempty).mount visible⟩
  | remount visible =>
    obtain ⟨component, store, p, mounts, rfl, h⟩ := h
    exact ⟨_, store, p, mounts + 1, rfl, h.mount visible⟩

private theorem InStep.live {s : Session Store} (h : s.InStep) (steps : List (LifeStep Store.Step)) :
    (s.live Store.act steps).InStep := by
  induction steps generalizing s with
  | nil => exact h
  | cons st rest ih => exact ih (h.lifeStep st)

/-- Right after a digest the value of a hydrated field is the stored one. -/
private theorem InStep.digest {s : Session Store} (h : s.InStep) :
    ∃ store, s.digest.value.1.remote = some store ∧
      ∀ c, s.digest.value.1.component = some c → ∀ k v, c.settings.isHydrated k = true →
        c.settings.field k = some v → ∃ w, store.value k = some w ∧ w.same v = true := by
  obtain ⟨component, store, p, mounts, rfl, h⟩ := h
  cases component with
  | none =>
    refine ⟨store, rfl, ?_⟩
    rintro c ⟨⟩
  | some c =>
    have hdigest : (linked (some c) store p mounts).digest.value.1 = _ :=
      step_linked Store.act c store p mounts .digest
    have hmoved := h.moved .digest
    have hofPanel := (h.panel c rfl).2.ofPanel
    rw [hdigest]
    refine ⟨_, rfl, ?_⟩
    rintro c' ⟨⟩ k v hh hv
    have hagrees := (hmoved.panel _ rfl).2
    have hquiet : sameValue (c.settings.digest.1.cells.get k).baseline (some v) = true :=
      Cell.quiet_iff.1 (hofPanel.settled.quiet_digest k) v hh hv
    cases hb : (c.settings.digest.1.cells.get k).baseline with
    | none =>
      rw [hb] at hquiet
      cases hquiet
    | some w =>
      rw [hb] at hquiet
      exact ⟨w, hagrees.baseline k w hh hb, hquiet⟩

/-- In every life of panels on one store, what the mounted panel takes for agreed is exactly what the store holds, and
right after a digest the store holds the same value as each hydrated field that has one. -/
theorem store_agrees_with_panel (values : PerField (Option Double)) (writes : List (Field × Double))
    (deferred visible : Bool) (steps : List (LifeStep Store.Step)) :
    let s := (Session.new { Store.empty deferred with values, writes } visible).live Store.act steps
    (∃ store, s.remote = some store ∧
      ∀ c, s.component = some c → ∀ k w, c.settings.isHydrated k = true →
        (c.settings.cells.get k).baseline = some w → store.value k = some w) ∧
    ∃ store, s.digest.value.1.remote = some store ∧
      ∀ c, s.digest.value.1.component = some c → ∀ k v, c.settings.isHydrated k = true →
        c.settings.field k = some v → ∃ w, store.value k = some w ∧ w.same v = true := by
  intro s
  have hs : s.InStep := (inStep_new values writes deferred visible).live steps
  refine ⟨?_, hs.digest⟩
  obtain ⟨component, store, p, mounts, heq, h⟩ := hs
  rw [heq]
  exact ⟨store, rfl, fun c hc => (h.panel c hc).2.baseline⟩

-- The reads are answered before the reset and arrive after it; they no longer count.
example :
    let s := (Session.new (.ofOffsets (.fill (.infinity true)) true) true).live Store.act
      [.panel .readAll, .panel (.remote .resolveAll), .panel .reset, .panel .run, .panel .digest]
    s.component.map (fun c => c.settings.cells.get .posX) =
        some ⟨some Field.posX.default, some Field.posX.default, true⟩ ∧
      s.remote.map (fun store => store.value .posX) = some (some Field.posX.default) := by
  decide

end Session

end CameraPanel
