import CameraPanel.Proofs.Steps

/-!
# Answers of the store and the tasks that hear them

A delivery reaches exactly the tasks that wait for its ticket and leaves the others as they are, and a run of the pool
finishes tasks that have their answers and keeps the others.  All that the store does on its own is to answer reads that
wait, each with a failure or with the value that it holds at that moment (`Store.Answers`); its values stay as they are.
-/

namespace CameraPanel

/-! ### Tasks -/

theorem ReadTask.finished?_eq_some_iff {t : ReadTask} {f : FinishedRead} :
    t.finished? = some f ↔ t.reading = .now f.answer ∧ t.mount = f.mount ∧ t.field = f.field := by
  obtain ⟨mount, field, reading⟩ := t
  obtain ⟨fmount, ffield, fanswer⟩ := f
  cases reading with
  | now a =>
    simp only [finished?, Option.some.injEq, FinishedRead.mk.injEq, Reading.now.injEq]
    constructor
    · rintro ⟨rfl, rfl, rfl⟩
      exact ⟨rfl, rfl, rfl⟩
    · rintro ⟨rfl, rfl, rfl⟩
      exact ⟨rfl, rfl, rfl⟩
  | later n => simp [finished?]

theorem ReadTask.awaits_iff {t : ReadTask} {ticket : Nat} : t.awaits ticket = true ↔ t.reading = .later ticket := by
  unfold awaits
  cases t.reading <;> simp

namespace Pool

/-- All tasks of the pool. -/
def tasks (p : Pool) : List ReadTask := p.woken ++ p.started ++ p.parked

theorem mem_tasks_start {p : Pool} {t t' : ReadTask} : t' ∈ (p.start t).tasks ↔ t' = t ∨ t' ∈ p.tasks := by
  simp only [tasks, start, List.mem_append, List.mem_singleton]
  constructor
  · rintro ((h | h | h) | h) <;> simp [h]
  · rintro (h | (h | h) | h) <;> simp [h]

/-- A task of the pool after a delivery is as it was, or it waited for the ticket and has the answer now. -/
private theorem mem_tasks_deliver {p : Pool} {d : Delivery Answer} {t : ReadTask} (h : t ∈ (p.deliver d).tasks) :
    ∃ t₀ ∈ p.tasks, t = t₀ ∨ (t₀.reading = .later d.ticket ∧ t = t₀.answered d.answer) := by
  simp only [tasks, deliver, List.mem_append, List.mem_map, List.mem_filter] at h ⊢
  rcases h with ((h | ⟨t₀, ⟨hmem, hawaits⟩, rfl⟩) | ⟨t₀, hmem, rfl⟩) | ⟨hmem, -⟩
  · exact ⟨t, by simp [h], Or.inl rfl⟩
  · exact ⟨t₀, by simp [hmem], Or.inr ⟨ReadTask.awaits_iff.1 hawaits, rfl⟩⟩
  · refine ⟨t₀, by simp [hmem], ?_⟩
    split
    · rename_i hawaits
      exact Or.inr ⟨ReadTask.awaits_iff.1 hawaits, rfl⟩
    · exact Or.inl rfl
  · exact ⟨t, by simp [hmem], Or.inl rfl⟩

theorem mem_tasks_deliverAll {p : Pool} {ds : List (Delivery Answer)} {t : ReadTask} (h : t ∈ (p.deliverAll ds).tasks) :
    ∃ t₀ ∈ p.tasks, t = t₀ ∨ ∃ d ∈ ds, t₀.reading = .later d.ticket ∧ t = t₀.answered d.answer := by
  induction ds generalizing p with
  | nil => exact ⟨t, h, Or.inl rfl⟩
  | cons d rest ih =>
    obtain ⟨t₁, h₁, hcase⟩ := ih h
    obtain ⟨t₀, h₀, rfl | ⟨hreading, rfl⟩⟩ := mem_tasks_deliver h₁
    · refine ⟨t₁, h₀, ?_⟩
      rcases hcase with rfl | ⟨d', hd', hreading, rfl⟩
      · exact Or.inl rfl
      · exact Or.inr ⟨d', by simp [hd'], hreading, rfl⟩
    · -- The task got its answer from `d`, and no later delivery is for it.
      refine ⟨t₀, h₀, Or.inr ?_⟩
      rcases hcase with rfl | ⟨d', -, hlater, -⟩
      · exact ⟨d, by simp, hreading, rfl⟩
      · cases hlater

theorem mem_tasks_run {p : Pool} {t : ReadTask} (h : t ∈ p.run.1.tasks) : t ∈ p.tasks := by
  simp only [tasks, run, List.mem_append, List.mem_filter, List.not_mem_nil, false_or] at h ⊢
  rcases h with h | ⟨h | h, -⟩ <;> simp [h]

theorem mem_run {p : Pool} {f : FinishedRead} (h : f ∈ p.run.2) : ∃ t ∈ p.tasks, t.finished? = some f := by
  obtain ⟨t, ht, hf⟩ := List.mem_filterMap.1 h
  exact ⟨t, List.mem_append_left _ ht, hf⟩

theorem mem_tasks_finish {p : Pool} {n : Nat} {t : ReadTask} (h : t ∈ (p.finish n).1.tasks) : t ∈ p.tasks := by
  unfold finish at h
  split at h
  · split at h
    · simp only [tasks, List.mem_append] at h ⊢
      rcases h with (h | h) | h
      · exact Or.inl (Or.inl (List.mem_of_mem_eraseIdx h))
      · exact Or.inl (Or.inr h)
      · exact Or.inr h
    · simp only [tasks, List.mem_append] at h ⊢
      rcases h with (h | h) | h
      · exact Or.inl (Or.inl h)
      · exact Or.inl (Or.inr (List.mem_of_mem_eraseIdx h))
      · exact Or.inr h
  · exact h

theorem mem_finish {p : Pool} {n : Nat} {f : FinishedRead} (h : f ∈ (p.finish n).2) :
    ∃ t ∈ p.tasks, t.finished? = some f := by
  unfold finish at h
  split at h
  · rename_i g hg
    have hf : f = g := by split at h <;> exact List.mem_singleton.1 h
    subst hf
    obtain ⟨t, ht, hfinished⟩ := Option.bind_eq_some_iff.1 hg
    exact ⟨t, List.mem_append_left _ (List.mem_of_getElem? ht), hfinished⟩
  · cases h

end Pool

/-! ### The store -/

namespace Store

/-- What happens to the store other than reads and writes of a panel. -/
inductive Step where
  | defer
  | resolve (k : Field)
  | fail (k : Field) (e : RemoteError)
  | resolveAll
  | takeWrites

/-- The store after a step, and the answers that it delivers. -/
def act : Step → Store → Store × List (Delivery Answer)
  | .defer, s => (s.defer, [])
  | .resolve k, s => ((s.resolve k).1, (s.resolve k).2.toList)
  | .fail k e, s => ((s.fail k e).1, (s.fail k e).2.toList)
  | .resolveAll, s => s.resolveAll
  | .takeWrites, s => (s.takeWrites.1, [])

/-- The oldest waiting read of a field stands behind reads of other fields only. -/
theorem oldest?_eq_some {k : Field} {pending others : List (Field × Nat)} {ticket : Nat}
    (h : oldest? k pending = some (ticket, others)) :
    ∃ front back, pending = front ++ (k, ticket) :: back ∧ others = front ++ back ∧ ∀ e ∈ front, e.1 ≠ k := by
  induction pending generalizing others with
  | nil => cases h
  | cons e rest ih =>
    obtain ⟨j, t⟩ := e
    unfold oldest? at h
    split at h
    · rename_i hj
      subst hj
      cases h
      exact ⟨[], rest, rfl, rfl, by simp⟩
    · rename_i hj
      obtain ⟨⟨t', others'⟩, hrest, heq⟩ := Option.map_eq_some_iff.1 h
      cases heq
      obtain ⟨front, back, rfl, rfl, hfront⟩ := ih hrest
      refine ⟨(j, t) :: front, back, rfl, rfl, ?_⟩
      intro e he
      rcases List.mem_cons.1 he with rfl | he
      · exact hj
      · exact hfront e he

/-- From `s` to `s'` the store answers waiting reads with `ds`, each with a failure or with the value that it holds. -/
structure Answers (s s' : Store) (ds : List (Delivery Answer)) : Prop where
  values : s'.values = s.values
  reads : s'.reads = s.reads
  pending : ∀ e ∈ s'.pending, e ∈ s.pending
  honest : ∀ d ∈ ds, ∃ k, (k, d.ticket) ∈ s.pending ∧ ∀ value, d.answer = .ok value → value = s.value k

private theorem Answers.nothing {s s' : Store} (hvalues : s'.values = s.values) (hreads : s'.reads = s.reads)
    (hpending : s'.pending = s.pending) : s.Answers s' [] := by
  refine ⟨hvalues, hreads, fun e he => hpending ▸ he, ?_⟩
  intro d hd
  cases hd

private theorem Answers.trans {s s' s'' : Store} {ds ds' : List (Delivery Answer)} (h : s.Answers s' ds)
    (h' : s'.Answers s'' ds') : s.Answers s'' (ds ++ ds') := by
  refine ⟨h'.values.trans h.values, h'.reads.trans h.reads, fun e he => h.pending e (h'.pending e he), ?_⟩
  intro d hd
  rcases List.mem_append.1 hd with hd | hd
  · exact h.honest d hd
  · obtain ⟨k, hk, hvalue⟩ := h'.honest d hd
    refine ⟨k, h.pending _ hk, fun value hv => ?_⟩
    rw [hvalue value hv, Store.value, Store.value, h.values]

private theorem answers_answer (s : Store) (k : Field) {a : Answer} (ha : ∀ value, a = .ok value → value = s.value k) :
    s.Answers (s.answer k a).1 (s.answer k a).2.toList := by
  unfold answer
  rcases hold : oldest? k s.pending with _ | ⟨ticket, others⟩
  · exact .nothing rfl rfl rfl
  · obtain ⟨front, back, hpending, rfl, -⟩ := oldest?_eq_some hold
    refine ⟨rfl, rfl, ?_, ?_⟩
    · intro e he
      rw [hpending]
      rcases List.mem_append.1 he with he | he <;> simp [he]
    · intro d hd
      have hd' : d = ⟨ticket, a⟩ := by simpa using hd
      subst hd'
      exact ⟨k, by simp [hpending], ha⟩

private theorem answers_resolve (s : Store) (k : Field) : s.Answers (s.resolve k).1 (s.resolve k).2.toList := by
  apply answers_answer
  rintro value ⟨⟩
  rfl

private theorem answers_resolveEach (s : Store) (ks : List Field) :
    s.Answers (s.resolveEach ks).1 (s.resolveEach ks).2 := by
  induction ks generalizing s with
  | nil => exact .nothing rfl rfl rfl
  | cons k rest ih => exact (s.answers_resolve k).trans (ih _)

theorem answers_act (st : Step) (s : Store) : s.Answers (act st s).1 (act st s).2 := by
  cases st with
  | defer => exact .nothing rfl rfl rfl
  | resolve k => exact s.answers_resolve k
  | fail k e =>
    apply answers_answer
    rintro value ⟨⟩
  | resolveAll => exact s.answers_resolveEach _
  | takeWrites => exact .nothing rfl rfl rfl

/-! ### Reads and writes of the store -/

theorem read_of_deferred {s : Store} (h : s.deferred = true) (k : Field) :
    (s.read k).value =
      ({ s with reads := s.reads + 1, pending := s.pending ++ [(k, s.reads)] }, .later s.reads) := by
  simp [read, h]

theorem read_of_not_deferred {s : Store} (h : s.deferred = false) (k : Field) :
    (s.read k).value = ({ s with reads := s.reads + 1 }, .now (.ok (s.value k))) := by
  simp [read, h]

theorem pending_sendAll (s : Store) (writes : List (Field × Double)) : (sendAll s writes).pending = s.pending := by
  induction writes generalizing s with
  | nil => rfl
  | cons w rest ih => exact ih _

theorem reads_sendAll (s : Store) (writes : List (Field × Double)) : (sendAll s writes).reads = s.reads := by
  induction writes generalizing s with
  | nil => rfl
  | cons w rest ih => exact ih _

/-- After some writes the store holds the last one of each field, and the other values as before. -/
theorem value_sendAll (s : Store) (writes : List (Field × Double)) (k : Field) :
    (sendAll s writes).value k = (lastWrite writes k).or (s.value k) := by
  refine view_sendAll value (fun s j v k => ?_) s writes k
  show (s.values.set j (some v)).get k = _
  by_cases hk : k = j
  · rw [if_pos hk, hk, PerField.get_set_self]
  · rw [if_neg hk, PerField.get_set_of_ne _ _ hk]
    rfl

end Store

end CameraPanel
