import CameraPanel.Proofs.ReadTraffic

/-!
# The account of the reads

A read that a panel issued is in exactly one place: the remote side owes its answer, it has its answer but its task has
not run, its result waits in the queue of the panel, a digest took it out of the queue, or it was discarded because its
panel was gone.  Whether a read is answered, and with what, is read off the traffic with the remote side; what the pool
holds follows from that (`perm_reads_turns`), and what becomes of the results of finished reads is said here, turn by
turn (`perm_queue_turn`).

The digests are those of the settings.  A result that a digest takes is applied if its field was not hydrated and it is
the first one for the field; then the field has its value.  To leave out any other result makes no difference to the
digest.
-/

namespace CameraPanel

/-! ### Results -/

/-- The result of a read of a field by the panel that was mounted as number `mount`. -/
structure ReadResult where
  mount : Nat
  field : Field
  value : Option Double
deriving DecidableEq

/-- Who read what. -/
def ReadResult.key (x : ReadResult) : Nat × Field := (x.mount, x.field)

/-- Who reads what. -/
def ReadTask.key (t : ReadTask) : Nat × Field := (t.mount, t.field)

/-- The result of a task that has its answer. -/
def ReadTask.result? (t : ReadTask) : Option ReadResult := t.answer?.map fun a => ⟨t.mount, t.field, Answer.value a⟩

def FinishedRead.result (f : FinishedRead) : ReadResult := ⟨f.mount, f.field, Answer.value f.answer⟩

private theorem filterMap_result_task (fs : List FinishedRead) :
    (fs.map FinishedRead.task).filterMap ReadTask.result? = fs.map FinishedRead.result := by
  rw [List.filterMap_map, ← List.filterMap_eq_map]
  rfl

/-- Each read has its answer or waits for it. -/
private theorem count_answered (ts : List ReadTask) (x : Nat × Field) :
    (ts.map ReadTask.key).count x = ((ts.filter fun t => t.answer?.isNone).map ReadTask.key).count x +
      ((ts.filterMap ReadTask.result?).map ReadResult.key).count x := by
  have hanswered : (ts.filterMap ReadTask.result?).map ReadResult.key =
      (ts.filter fun t => !t.answer?.isNone).map ReadTask.key := by
    induction ts with
    | nil => rfl
    | cons t rest ih =>
      cases ha : t.answer? with
      | none => simpa [ReadTask.result?, ha] using ih
      | some a => simpa [ReadTask.result?, ha, ReadResult.key, ReadTask.key] using ih
  rw [hanswered, ← List.count_append, ← List.map_append]
  exact ((List.filter_append_perm _ ts).map ReadTask.key).count_eq x |>.symm

/-! ### Results that a digest takes out of the queue -/

/-- A result that a digest took out of the queue, and whether it was applied. -/
structure Drained extends ReadResult where
  applied : Bool

namespace Drained

/-- The result as it waited. -/
def waited (d : Drained) : Field × Option Double := (d.field, d.value)

/-- Results that a digest takes one after the other: one is applied if its field is not hydrated by then. -/
def log (mount : Nat) (hydrated : Field → Bool) : List (Field × Option Double) → List Drained
  | [] => []
  | (k, value) :: rest => ⟨⟨mount, k, value⟩, !hydrated k⟩ :: log mount (fun j => hydrated j || j = k) rest

private theorem map_log (mount : Nat) (hydrated : Field → Bool) (results : List (Field × Option Double)) :
    (log mount hydrated results).map toReadResult = results.map fun w => ⟨mount, w.1, w.2⟩ := by
  induction results generalizing hydrated with
  | nil => rfl
  | cons w rest ih => exact congrArg (_ :: ·) (ih _)

private theorem waited_log (mount : Nat) (hydrated : Field → Bool) (results : List (Field × Option Double)) :
    (log mount hydrated results).map waited = results := by
  have h := congrArg (List.map fun x : ReadResult => (x.field, x.value)) (map_log mount hydrated results)
  rw [List.map_map, List.map_map] at h
  exact h.trans (List.map_id _)

private theorem mem_log {mount : Nat} {hydrated : Field → Bool} {results : List (Field × Option Double)} {d : Drained}
    (h : d ∈ log mount hydrated results) : d.mount = mount ∧ (d.field, d.value) ∈ results := by
  have hresult := List.mem_map_of_mem h (f := toReadResult)
  rw [map_log] at hresult
  obtain ⟨w, hw, heq⟩ := List.mem_map.1 hresult
  rw [← heq]
  exact ⟨rfl, hw⟩

/-- A result is applied exactly if its field was not hydrated before and no result of the field came earlier. -/
private theorem applied_iff {mount : Nat} {hydrated : Field → Bool} {results : List (Field × Option Double)}
    {front back : List Drained} {d : Drained} (h : log mount hydrated results = front ++ d :: back) :
    d.applied = true ↔ hydrated d.field = false ∧ d.field ∉ front.map (·.field) := by
  induction results generalizing hydrated front with
  | nil => simp [log] at h
  | cons w rest ih =>
    cases front with
    | nil =>
      obtain ⟨rfl, -⟩ := List.cons.inj h
      simp
    | cons d' front =>
      obtain ⟨rfl, hrest⟩ := List.cons.inj h
      rw [ih hrest]
      simp only [Bool.or_eq_false_iff, decide_eq_false_iff_not, List.map_cons, List.mem_cons, not_or]
      exact and_assoc

private theorem not_applied {mount : Nat} {hydrated : Field → Bool} {results : List (Field × Option Double)}
    {d : Drained} (h : d ∈ log mount hydrated results) (hh : hydrated d.field = true) : d.applied = false := by
  obtain ⟨front, back, hsplit⟩ := List.append_of_mem h
  cases happlied : d.applied with
  | false => rfl
  | true => exact absurd (((applied_iff hsplit).1 happlied).1.symm.trans hh) (by decide)

private theorem pairwise_log (mount : Nat) (hydrated : Field → Bool) (results : List (Field × Option Double)) :
    (log mount hydrated results).Pairwise fun d d' => d.key = d'.key → d'.applied = false := by
  induction results generalizing hydrated with
  | nil => exact .nil
  | cons w rest ih =>
    refine .cons ?_ (ih _)
    intro d' hd' heq
    have hfield : d'.field = w.1 := (congrArg Prod.snd heq).symm
    exact not_applied hd' (by simp [hfield])

end Drained

/-- The results that a digest takes out of the queue of a panel. -/
def Component.drain (c : Component) : List Drained := Drained.log c.mount c.settings.isHydrated c.settings.waiting

namespace Settings

variable {α : Type}

private theorem elim_hydrate {c : Cell .double} (h : c.hydrated = true) (result : Option (Option Double)) :
    result.elim c c.hydrate = c := by
  cases result with
  | none => rfl
  | some value => exact Cell.hydrate_of_hydrated h value

/-- A result for a hydrated field, or one that comes after another of its field, makes no difference. -/
private theorem applyReads_without {cells : PerField (Cell .double)} {front : List (Field × Option Double)} {k : Field}
    (h : (cells.get k).hydrated = true ∨ k ∈ front.map Prod.fst) (value : Option Double)
    (back : List (Field × Option Double)) :
    (applyReads cells (front ++ (k, value) :: back)).1 = (applyReads cells (front ++ back)).1 := by
  apply PerField.ext_get
  intro j
  rw [get_applyReads, get_applyReads]
  by_cases hj : j = k
  · subst hj
    rcases h with h | h
    · rw [elim_hydrate h, elim_hydrate h]
    · obtain ⟨w, hw, rfl⟩ := List.mem_map.1 h
      have hsome : ∃ v, front.lookup w.1 = some v := by
        rw [← Option.ne_none_iff_exists']
        intro hnone
        simpa using List.lookup_eq_none_iff.1 hnone w hw
      obtain ⟨v, hv⟩ := hsome
      rw [List.lookup_append, List.lookup_append, hv]
      rfl
  · rw [List.lookup_append, List.lookup_append, List.lookup_cons, beq_eq_false_iff_ne.2 hj]

private theorem digest_without {s : Settings α} {front back : List (Field × Option Double)} {k : Field}
    {value : Option Double} (hw : s.waiting = front ++ (k, value) :: back)
    (h : s.isHydrated k = true ∨ k ∈ front.map Prod.fst) :
    ({ s with waiting := front ++ back } : Settings α).digest.1 = s.digest.1 := by
  simp only [digest, hw, applyReads_without h]

/-- The first result for a field that is not hydrated is its value after the digest. -/
private theorem get_digest_of_first {s : Settings α} {front back : List (Field × Option Double)} {k : Field}
    {value : Option Double} (hw : s.waiting = front ++ (k, value) :: back) (hh : s.isHydrated k = false)
    (hfirst : k ∉ front.map Prod.fst) : s.digest.1.cells.get k = ⟨value, value, true⟩ := by
  have hlookup : s.waiting.lookup k = some value := by
    have hnone : front.lookup k = none := by
      rw [List.lookup_eq_none_iff]
      intro w hmem
      have hne : k ≠ w.1 := fun heq => hfirst (heq ▸ List.mem_map_of_mem hmem)
      simpa using hne
    rw [hw, List.lookup_append, hnone, List.lookup_cons_self]
    rfl
  have hcell : (applyReads s.cells s.waiting).1.get k = (s.cells.get k).hydrate value := by
    rw [get_applyReads, hlookup]
    rfl
  have hquiet : ((s.cells.get k).hydrate value).Quiet := (Cell.quiet_of_not_hydrated hh).hydrate value
  show (observeAll (applyReads s.cells s.waiting).1 s.edited.toList).1.get k = _
  rw [get_observeAll _ s.edited.nodup_toList, hcell, Cell.observe_of_quiet hquiet, ite_self,
    Cell.hydrate_of_not_hydrated hh]

/-- The results that come too late are those that are not applied. -/
private theorem stale_applyReads (mount : Nat) (cells : PerField (Cell .double))
    (results : List (Field × Option Double)) :
    (applyReads cells results).2 =
      ((Drained.log mount (fun k => (cells.get k).hydrated) results).filter fun d => !d.applied).map (·.field) := by
  induction results generalizing cells with
  | nil => rfl
  | cons w rest ih =>
    obtain ⟨k, value⟩ := w
    have hhydrated : (fun j => ((cells.set k ((cells.get k).hydrate value)).get j).hydrated) =
        fun j => (cells.get j).hydrated || decide (j = k) := by
      funext j
      by_cases hj : j = k
      · simp [hj]
      · simp [hj, PerField.get_set_of_ne]
    have hrest := ih (cells.set k ((cells.get k).hydrate value))
    rw [hhydrated] at hrest
    cases hk : (cells.get k).hydrated <;> simp [applyReads, Drained.log, hk, hrest]

private theorem OfPanel.hydrated_of_waiting {s : Settings Unit} (h : s.OfPanel) {k : Field} {value : Option Double}
    (hw : (k, value) ∈ s.waiting) : (s.after .digested).isHydrated k = true := by
  show (s.digest.1.cells.get k).hydrated = true
  rw [h.settled.get_digest, Cell.hydrated_observe, drained]
  cases hlook : s.waiting.lookup k with
  | none =>
    have hne := List.lookup_eq_none_iff.1 hlook _ hw
    simp at hne
  | some v => exact Cell.hydrated_hydrate _ v

end Settings

/-- What the digest of a panel does with a result: one that is applied becomes the value of its field, and any other
could as well not have been there. -/
private theorem Component.digest_drained (c : Component) {front back : List Drained} {d : Drained}
    (h : c.drain = front ++ d :: back) :
    (d.applied = true ↔ c.settings.isHydrated d.field = false ∧ d.field ∉ front.map (·.field)) ∧
    (d.applied = true → c.settings.digest.1.cells.get d.field = ⟨d.value, d.value, true⟩) ∧
    (d.applied = false →
      ({ c.settings with waiting := (front ++ back).map Drained.waited } : Settings Unit).digest.1 =
        c.settings.digest.1) := by
  have happlied := Drained.applied_iff h
  have hwaiting : c.settings.waiting = front.map Drained.waited ++ (d.field, d.value) :: back.map Drained.waited := by
    rw [← Drained.waited_log c.mount c.settings.isHydrated c.settings.waiting]
    exact (congrArg (List.map Drained.waited) h).trans (by simp [Drained.waited])
  have hfields : (front.map Drained.waited).map Prod.fst = front.map (·.field) := by
    rw [List.map_map]
    rfl
  refine ⟨happlied, ?_, ?_⟩
  · intro hd
    obtain ⟨hh, hfirst⟩ := happlied.1 hd
    exact Settings.get_digest_of_first hwaiting hh (by rwa [hfields])
  · intro hd
    rw [List.map_append]
    refine Settings.digest_without hwaiting ?_
    rw [hfields]
    by_contra hnot
    rw [not_or, Bool.not_eq_true] at hnot
    exact absurd (hd.symm.trans (happlied.2 hnot)) (by decide)

namespace Session

variable {ρ ε : Type} [RemoteSide ρ] (act : ε → ρ → ρ × List (Delivery Answer))

/-! ### Places of a read -/

/-- The results of the reads that have their answer, but whose task has not run. -/
def ready (s : Session ρ) : List ReadResult := s.tasks.filterMap ReadTask.result?

/-- The results that wait in the queue of the mounted panel. -/
def queue (s : Session ρ) : List ReadResult :=
  s.component.elim [] fun c => c.settings.waiting.map fun w => ⟨c.mount, w.1, w.2⟩

/-- Whether the panel that issued a read is the mounted one. -/
def owns (s : Session ρ) (f : FinishedRead) : Bool := s.component.any fun c => c.mount = f.mount

/-- The results that a turn takes out of the queue. -/
def drains (s : Session ρ) : Turn ε → List Drained
  | .panel .digest => s.component.elim [] Component.drain
  | _ => []

/-- The queue that goes away with its panel. -/
def drops (s : Session ρ) : Turn ε → List ReadResult
  | .unmount => s.queue
  | .remount _ => s.queue
  | _ => []

/-- The results that are discarded in a turn because their panel is gone. -/
def discards (s : Session ρ) (t : Turn ε) : List ReadResult :=
  ((s.finishes t).filter fun f => !s.owns f).map FinishedRead.result ++ s.drops t

/-! ### One turn -/

/-- What a turn is for the mounted panel, as long as it stays. -/
def seen (s : Session ρ) : Turn ε → PanelEvent
  | .panel st => s.event st
  | _ => .arrived []

/-- The mounted panel stays, or there is none afterwards, or a new one is mounted.  Its queue is dropped unless it
stays. -/
inductive Fate (s s' : Session ρ) (t : Turn ε) : Prop
  | stays (c : Component) (before : s.component = some c)
    (now : s'.component = some { c with settings := c.settings.after (s.seen t) }) (mounts : s'.mounts = s.mounts)
    (drops : s.drops t = [])
  | leaves (now : s'.component = none) (mounts : s'.mounts = s.mounts) (drops : s.drops t = s.queue)
    (drains : s.drains t = []) (owns : (s.finishes t).filter s.owns = [])
  | comes (visible : Bool) (now : s'.component = some (.new s.mounts visible)) (mounts : s'.mounts = s.mounts + 1)
    (drops : s.drops t = s.queue) (drains : s.drains t = []) (owns : (s.finishes t).filter s.owns = [])

private theorem Running.fate {s : Session ρ} (hs : Running s) (t : Turn ε) : Fate s (s.turn act t) t := by
  have hrelease : ∀ (remote : Option ρ) (held : Bool) (p : Pool) (mounts : Nat),
      (⟨remote, held, none, some p, mounts⟩ : Session ρ).release.component = none ∧
        (⟨remote, held, none, some p, mounts⟩ : Session ρ).release.mounts = mounts := by
    intro remote held p mounts
    obtain ⟨remote', heq, -⟩ := release_idle remote held p mounts
    rw [heq]
    exact ⟨rfl, rfl⟩
  cases hs with
  | mounted r held c p hc hp =>
    cases t with
    | panel st =>
      rw [Session.turn, step_mounted]
      exact .stays c rfl (by cases st <;> rfl) rfl rfl
    | unmount =>
      obtain ⟨hnone, hmounts⟩ := hrelease (some r) held p (c.mount + 1)
      exact .leaves hnone hmounts rfl rfl rfl
    | remount visible =>
      cases held with
      | true => exact .comes visible rfl rfl rfl rfl rfl
      | false =>
        obtain ⟨hnone, hmounts⟩ := hrelease (some r) false p (c.mount + 1)
        exact .leaves hnone hmounts rfl rfl rfl
    | forget =>
      refine .stays c rfl ?_ rfl rfl
      show some c = some ⟨c.mount, { c.settings with waiting := c.settings.waiting ++ [] }⟩
      rw [List.append_nil]
  | idle remote held p mounts hremote hp =>
    have howns : ∀ fs : List FinishedRead, fs.filter (owns (⟨remote, held, none, some p, mounts⟩ : Session ρ)) = [] :=
      fun fs => List.filter_eq_nil_iff.2 fun f _ => by simp [owns]
    cases t with
    | panel st =>
      obtain ⟨remote', p', heq, -⟩ := step_idle act remote held hp mounts st
      rw [Session.turn, heq]
      exact .leaves rfl rfl rfl (by cases st <;> rfl) (howns _)
    | unmount =>
      obtain ⟨hnone, hmounts⟩ := hrelease remote held p mounts
      exact .leaves hnone hmounts rfl rfl rfl
    | remount visible =>
      cases held with
      | true => exact .comes visible rfl rfl rfl rfl rfl
      | false =>
        obtain ⟨hnone, hmounts⟩ := hrelease remote false p mounts
        exact .leaves hnone hmounts rfl rfl rfl
    | forget =>
      obtain ⟨hnone, hmounts⟩ := hrelease remote false p mounts
      exact .leaves hnone hmounts rfl rfl rfl

omit [RemoteSide ρ] in
/-- The queue of a panel that stays: a digest empties it, and else only results of its own reads come to it. -/
private theorem waiting_after_seen (s : Session ρ) {c : Component} (hc : s.component = some c) (t : Turn ε) :
    (s.drains t = [] ∧
      (c.settings.after (s.seen t)).waiting = c.settings.waiting ++ arrivals c.mount (s.finishes t)) ∨
    (s.drains t = c.drain ∧ s.finishes t = [] ∧ s.seen t = .digested) := by
  have hsame : c.settings.waiting = c.settings.waiting ++ arrivals c.mount [] := (List.append_nil _).symm
  cases t with
  | panel st =>
    cases st with
    | run | finish n =>
      left
      refine ⟨rfl, ?_⟩
      cases hp : s.pool <;> simp [seen, event, arriving, finishes, hc, hp, Settings.after, arrivals]
    | digest =>
      right
      exact ⟨by rw [drains, hc]; rfl, rfl, rfl⟩
    | readAll | remote e => exact .inl ⟨rfl, rfl⟩
    | _ => exact .inl ⟨rfl, hsame⟩
  | _ => exact .inl ⟨rfl, rfl⟩

omit [RemoteSide ρ] in
private theorem map_arrivals (s : Session ρ) {c : Component} (hc : s.component = some c) (fs : List FinishedRead) :
    (arrivals c.mount fs).map (fun w => ⟨c.mount, w.1, w.2⟩) = (fs.filter s.owns).map FinishedRead.result := by
  have howns : s.owns = fun f => decide (c.mount = f.mount) := by
    funext f
    simp [owns, hc]
  rw [arrivals, howns, List.map_map]
  apply List.map_congr_left
  intro f hf
  have hmount : c.mount = f.mount := of_decide_eq_true (List.mem_filter.1 hf).2
  simp [FinishedRead.result, hmount]

/-- The queue gets the finished reads of its own panel, and loses what a digest takes or what goes with the panel. -/
private theorem Running.perm_queue_turn {s : Session ρ} (hs : Running s) (t : Turn ε) :
    ((s.turn act t).queue ++ (s.drains t).map Drained.toReadResult ++ s.drops t).Perm
      (s.queue ++ ((s.finishes t).filter s.owns).map FinishedRead.result) := by
  cases hs.fate act t with
  | stays c before now mounts drops =>
    have hbefore : s.queue = c.settings.waiting.map fun w => ⟨c.mount, w.1, w.2⟩ := by rw [queue, before]; rfl
    have hnow : (s.turn act t).queue = (c.settings.after (s.seen t)).waiting.map fun w => ⟨c.mount, w.1, w.2⟩ := by
      rw [queue, now]
      rfl
    rw [hbefore, hnow, drops]
    rcases s.waiting_after_seen before t with ⟨hdrains, hwaiting⟩ | ⟨hdrains, hfinishes, hseen⟩
    · simp [hwaiting, hdrains, s.map_arrivals before]
    · simp [hdrains, hfinishes, hseen, Component.drain, Drained.map_log, Settings.after, Settings.digest]
  | leaves now mounts drops drains owns => simp [drops, drains, owns, queue, now]
  | comes visible now mounts drops drains owns =>
    have hnew : (Component.new s.mounts visible).settings.waiting = [] := rfl
    simp [drops, drains, owns, queue, now, hnew]

omit [RemoteSide ρ] in
private theorem Running.of_mounted {s : Session ρ} (hs : Running s) {c : Component} (hc : s.component = some c) :
    c.settings.OfPanel ∧ ∃ r held p, s = ⟨some r, held, some c, some p, c.mount + 1⟩ := by
  cases hs with
  | mounted r held c' p hc' hp =>
    obtain rfl := Option.some.inj hc
    exact ⟨hc', r, held, p, rfl⟩
  | idle remote held p mounts hremote hp => cases hc

private theorem Running.component_digest {s : Session ρ} (hs : Running s) {c : Component} (hc : s.component = some c) :
    (s.turn act (.panel .digest)).component = some { c with settings := c.settings.digest.1 } := by
  obtain ⟨-, r, held, p, rfl⟩ := hs.of_mounted hc
  rw [Session.turn, step_mounted]
  rfl

/-- A run of the pool leaves no read behind that has its answer. -/
private theorem Running.ready_run {s : Session ρ} (hs : Running s) : (s.turn act (.panel .run)).ready = [] := by
  have hpool : ∀ {p : Pool}, p.Sound → p.run.1.tasks.filterMap ReadTask.result? = [] := by
    intro p hp
    rw [List.filterMap_eq_nil_iff]
    intro t ht
    rw [ReadTask.result?, hp.run.parked t ht]
    rfl
  cases hs with
  | mounted r held c p hc hp =>
    rw [Session.turn, step_mounted]
    exact hpool hp
  | idle remote held p mounts hremote hp => exact hpool hp

/-! ### Whole runs -/

/-- The result of a finished read is in the queue of its panel, or a digest took it, or it was discarded. -/
private theorem perm_results_turns (r : ρ) (visible : Bool) (ts : List (Turn ε)) :
    (((Session.new r visible).collect act finishes ts).map FinishedRead.result).Perm
      (((Session.new r visible).turns act ts).queue ++
        ((Session.new r visible).collect act drains ts).map Drained.toReadResult ++
        (Session.new r visible).collect act discards ts) := by
  induction ts using List.reverseRecOn with
  | nil => rfl
  | append_singleton ts t ih =>
    have hs := running_turns act (running_new r visible) ts
    simp only [turns_concat, collect_concat]
    generalize (Session.new r visible).turns act ts = s at ih hs
    have hqueue := hs.perm_queue_turn act t
    have hfinishes := (List.filter_append_perm s.owns (s.finishes t)).map FinishedRead.result
    rw [List.perm_iff_count] at ih hqueue hfinishes ⊢
    intro x
    have ih := ih x
    have hqueue := hqueue x
    have hfinishes := hfinishes x
    simp only [discards, List.map_append, List.count_append] at ih hqueue hfinishes ⊢
    omega

/-- Every answer that a read has got is in one of four places. -/
private theorem perm_answered_turns (r : ρ) (visible : Bool) (ts : List (Turn ε)) :
    ((Traffic.reads ((Session.new r visible).collect act (traffic act) ts)).filterMap ReadTask.result?).Perm
      (((Session.new r visible).turns act ts).ready ++ ((Session.new r visible).turns act ts).queue ++
        ((Session.new r visible).collect act drains ts).map Drained.toReadResult ++
        (Session.new r visible).collect act discards ts) := by
  have hreads := (perm_reads_turns act r visible ts).filterMap ReadTask.result?
  rw [List.filterMap_append, filterMap_result_task] at hreads
  refine hreads.trans ?_
  simp only [List.append_assoc]
  exact ((perm_results_turns act r visible ts).append_left _).trans (by simp [ready])

private theorem mounts_le_turn {s : Session ρ} (hs : Running s) (t : Turn ε) : s.mounts ≤ (s.turn act t).mounts := by
  cases hs.fate act t with
  | stays c before now mounts drops => exact Nat.le_of_eq mounts.symm
  | leaves now mounts drops drains owns => exact Nat.le_of_eq mounts.symm
  | comes visible now mounts drops drains owns => omega

private theorem mounts_le_turns {s : Session ρ} (hs : Running s) (ts : List (Turn ε)) :
    s.mounts ≤ (s.turns act ts).mounts := by
  induction ts generalizing s with
  | nil => exact Nat.le_refl _
  | cons t rest ih => exact Nat.le_trans (mounts_le_turn act hs t) (ih (hs.turn act t))

omit [RemoteSide ρ] in
private theorem Running.mounts_eq {s : Session ρ} (hs : Running s) {c : Component} (hc : s.component = some c) :
    s.mounts = c.mount + 1 := by
  obtain ⟨-, r, held, p, rfl⟩ := hs.of_mounted hc
  rfl

private theorem Running.issues_lt {s : Session ρ} (hs : Running s) (t : Turn ε) :
    ∀ x ∈ s.issues act t, x.mount < s.mounts := by
  intro x hx
  unfold issues at hx
  cases hc : s.component with
  | none =>
    rw [hc] at hx
    cases hx
  | some c =>
    rw [hc] at hx
    obtain ⟨k, -, rfl⟩ := List.mem_map.1 hx
    rw [hs.mounts_eq hc]
    exact Nat.lt_succ_self _

/-- A turn brings reads of panels that were mounted before it only. -/
private theorem Running.reads_lt {s : Session ρ} (hs : Running s) {log : List Traffic}
    (hlog : ∀ x ∈ Traffic.reads log, x.mount < s.mounts) (t : Turn ε) :
    ∀ x ∈ Traffic.reads (log ++ s.traffic act t), x.mount < s.mounts := by
  intro x hx
  rw [traffic, Traffic.reads_concat] at hx
  obtain ⟨y, hy, rfl⟩ := List.mem_map.1 hx
  rw [Traffic.mount_settle]
  exact (List.mem_append.1 hy).elim (hlog y) (hs.issues_lt act t y)

private theorem reads_lt_turns (r : ρ) (visible : Bool) (ts : List (Turn ε)) :
    ∀ x ∈ Traffic.reads ((Session.new r visible).collect act (traffic act) ts),
      x.mount < ((Session.new r visible).turns act ts).mounts := by
  induction ts using List.reverseRecOn with
  | nil =>
    intro x hx
    cases hx
  | append_singleton ts t ih =>
    have hs := running_turns act (running_new r visible) ts
    intro x hx
    rw [collect_concat] at hx
    rw [turns_concat]
    exact Nat.lt_of_lt_of_le (hs.reads_lt act ih t x hx) (mounts_le_turn act hs t)

/-- The mounted panel after a turn was mounted before it, or has a number above all earlier ones. -/
private theorem mount_of_turn {s : Session ρ} (hs : Running s) (t : Turn ε) {c' : Component}
    (hc' : (s.turn act t).component = some c') :
    (∃ c, s.component = some c ∧ c'.mount = c.mount ∧ c'.settings = c.settings.after (s.seen t) ∧ s.drops t = []) ∨
      ∃ visible, c' = .new s.mounts visible := by
  cases hs.fate act t with
  | stays c before now mounts drops =>
    obtain rfl := Option.some.inj (now.symm.trans hc')
    exact .inl ⟨c, before, rfl, rfl, drops⟩
  | leaves now mounts drops drains owns =>
    rw [now] at hc'
    cases hc'
  | comes visible now mounts drops drains owns =>
    exact .inr ⟨visible, (Option.some.inj (now.symm.trans hc')).symm⟩

/-- A result is discarded only when its panel is gone for good. -/
private theorem discarded_of_gone (r : ρ) (visible : Bool) (ts : List (Turn ε)) :
    ∀ x ∈ (Session.new r visible).collect act discards ts, x.mount < ((Session.new r visible).turns act ts).mounts ∧
      ∀ c, ((Session.new r visible).turns act ts).component = some c → c.mount ≠ x.mount := by
  induction ts using List.reverseRecOn with
  | nil =>
    intro x hx
    cases hx
  | append_singleton ts t ih =>
    have hs := running_turns act (running_new r visible) ts
    intro x hx
    -- a result that was discarded belongs to a read that was issued
    have hlt : x.mount < ((Session.new r visible).turns act ts).mounts := by
      have hmem := (perm_answered_turns act r visible (ts ++ [t])).mem_iff.2 (List.mem_append_right _ hx)
      obtain ⟨y, hy, hresult⟩ := List.mem_filterMap.1 hmem
      obtain ⟨a, -, rfl⟩ := Option.map_eq_some_iff.1 hresult
      rw [collect_concat] at hy
      exact hs.reads_lt act (reads_lt_turns act r visible ts) t y hy
    rw [collect_concat] at hx
    rw [turns_concat]
    refine ⟨Nat.lt_of_lt_of_le hlt (mounts_le_turn act hs t), ?_⟩
    intro c' hc'
    rcases mount_of_turn act hs t hc' with ⟨c, hc, hmount, -, hdrops⟩ | ⟨visible', rfl⟩
    · rw [hmount]
      rcases List.mem_append.1 hx with hx | hx
      · exact (ih x hx).2 c hc
      · rw [discards, hdrops, List.append_nil] at hx
        obtain ⟨f, hf, rfl⟩ := List.mem_map.1 hx
        have hnot := (List.mem_filter.1 hf).2
        simpa [owns, hc, FinishedRead.result] using hnot
    · exact Nat.ne_of_gt hlt

/-- The results that digests took out of the queues so far: only the first one of a field can be applied, and the field
of a result is hydrated as long as its panel is mounted. -/
structure Drawn (s : Session ρ) (log : List Drained) : Prop where
  once : log.Pairwise fun d d' => d.key = d'.key → d'.applied = false
  below : ∀ d ∈ log, d.mount < s.mounts
  hydrated : ∀ d ∈ log, ∀ c, s.component = some c → c.mount = d.mount → c.settings.isHydrated d.field = true

/-- What is hydrated stays so, and a new panel has a number that no result has. -/
private theorem Drawn.kept {s : Session ρ} {log : List Drained} (h : Drawn s log) (hs : Running s) (t : Turn ε) :
    Drawn (s.turn act t) log := by
  refine ⟨h.once, fun d hd => Nat.lt_of_lt_of_le (h.below d hd) (mounts_le_turn act hs t), ?_⟩
  intro d hd c' hc' hmount'
  rcases mount_of_turn act hs t hc' with ⟨c, hc, hmount, hsettings, -⟩ | ⟨visible, rfl⟩
  · rw [hsettings]
    exact (hs.of_mounted hc).1.hydrated_after _ (h.hydrated d hd c hc (hmount.symm.trans hmount'))
  · exact absurd hmount' (Nat.ne_of_gt (h.below d hd))

private theorem Drawn.turn {s : Session ρ} {log : List Drained} (h : Drawn s log) (hs : Running s) (t : Turn ε) :
    Drawn (s.turn act t) (log ++ s.drains t) := by
  have hkept := h.kept act hs t
  have hnothing : s.drains t = [] → Drawn (s.turn act t) (log ++ s.drains t) := by
    intro hdrains
    rw [hdrains, List.append_nil]
    exact hkept
  cases hs.fate act t with
  | leaves now mounts drops drains owns => exact hnothing drains
  | comes visible now mounts drops drains owns => exact hnothing drains
  | stays c before now mounts drops =>
    rcases s.waiting_after_seen before t with ⟨hdrains, -⟩ | ⟨hdrains, -, hseen⟩
    · exact hnothing hdrains
    rw [hdrains]
    have hmounts := hs.mounts_eq before
    refine ⟨List.pairwise_append.2 ⟨h.once, Drained.pairwise_log _ _ _, ?_⟩, ?_, ?_⟩
    · intro d hd d' hd' hkey
      obtain ⟨hmount, hfield⟩ := Prod.mk.inj hkey
      refine Drained.not_applied hd' ?_
      rw [← hfield]
      exact h.hydrated d hd c before ((Drained.mem_log hd').1.symm.trans hmount.symm)
    · intro d hd
      rcases List.mem_append.1 hd with hd | hd
      · exact hkept.below d hd
      · rw [(Drained.mem_log hd).1]
        omega
    · intro d hd c' hc' hmount'
      rcases List.mem_append.1 hd with hd | hd
      · exact hkept.hydrated d hd c' hc' hmount'
      · obtain rfl := Option.some.inj (now.symm.trans hc')
        rw [hseen]
        exact (hs.of_mounted before).1.hydrated_of_waiting (Drained.mem_log hd).2

private theorem drawn_turns (r : ρ) (visible : Bool) (ts : List (Turn ε)) :
    Drawn ((Session.new r visible).turns act ts) ((Session.new r visible).collect act drains ts) := by
  induction ts using List.reverseRecOn with
  | nil => exact ⟨.nil, by simp [collect], by simp [collect]⟩
  | append_singleton ts t ih =>
    rw [turns_concat, collect_concat]
    exact ih.turn act (running_turns act (running_new r visible) ts) t

private theorem Running.hydrated_turns {s : Session ρ} (hs : Running s) {c c' : Component} {k : Field}
    (hc : s.component = some c) (hk : c.settings.isHydrated k = true) (later : List (Turn ε))
    (hc' : (s.turns act later).component = some c') (hmount : c'.mount = c.mount) :
    c'.settings.isHydrated k = true := by
  induction later using List.reverseRecOn generalizing c' with
  | nil =>
    obtain rfl := Option.some.inj (hc.symm.trans hc')
    exact hk
  | append_singleton later t ih =>
    have hs' := running_turns act hs later
    rw [turns_concat] at hc'
    rcases mount_of_turn act hs' t hc' with ⟨c'', hc'', hmount'', hsettings, -⟩ | ⟨visible, rfl⟩
    · rw [hsettings]
      exact (hs'.of_mounted hc'').1.hydrated_after _ (ih hc'' (hmount''.symm.trans hmount))
    · have hle := mounts_le_turns act hs later
      have heq := hs.mounts_eq hc
      have hnew : (s.turns act later).mounts = c.mount := hmount
      omega

/-- Only finished reads of the mounted panel come to its queue. -/
private theorem Running.waiting_turn {s : Session ρ} (hs : Running s) (t : Turn ε) {c' : Component}
    (hc' : (s.turn act t).component = some c') :
    c'.settings.waiting = [] ∨ ∃ c, s.component = some c ∧ c.mount = c'.mount ∧
      c'.settings.waiting = c.settings.waiting ++ arrivals c.mount (s.finishes t) := by
  rcases mount_of_turn act hs t hc' with ⟨c, hc, hmount, hsettings, -⟩ | ⟨visible, rfl⟩
  · rw [hsettings]
    rcases s.waiting_after_seen hc t with ⟨-, hwaiting⟩ | ⟨-, -, hseen⟩
    · exact .inr ⟨c, hc, hmount.symm, hwaiting⟩
    · rw [hseen]
      exact .inl rfl
  · exact .inl rfl

/-- No result of a read is lost, doubled or brought to another panel, whatever the remote side answers and whenever, and
however panels come and go on the pool.

Each read that a panel issued has got no answer yet, or has its answer and a task that has not run, or is in the queue
of its panel, or a digest of that panel took it, or it was discarded when its panel was gone for good; and the answers
are those that were delivered under the tickets of the reads.  Of the results for a field of a panel only the first one
to reach a digest can be applied, and only if the field is not hydrated; then the field has its value, and to leave out
any other one makes no difference to the digest.  What is hydrated stays hydrated. -/
theorem reads_are_accounted_for (r : ρ) (visible : Bool) (ts : List (Turn ε)) :
    let start := Session.new r visible
    let s := start.turns act ts
    let reads := Traffic.reads (start.collect act (traffic act) ts)
    let drained := start.collect act drains ts
    let discarded := start.collect act discards ts
    (∀ mount k, (reads.map ReadTask.key).count (mount, k) =
      ((reads.filter fun t => t.answer?.isNone).map ReadTask.key).count (mount, k) +
        (s.ready.map ReadResult.key).count (mount, k) + (s.queue.map ReadResult.key).count (mount, k) +
        (drained.map fun d => d.key).count (mount, k) + (discarded.map ReadResult.key).count (mount, k)) ∧
    (reads.filterMap ReadTask.result?).Perm
      (s.ready ++ s.queue ++ drained.map Drained.toReadResult ++ discarded) ∧
    (s.turn act (.panel .run)).ready = [] ∧
    (∀ x ∈ discarded, x.mount < s.mounts ∧ ∀ c, s.component = some c → c.mount ≠ x.mount) ∧
    (∀ x ∈ reads, x.mount < s.mounts) ∧
    (∀ t c', (s.turn act t).component = some c' →
      c'.settings.waiting = [] ∨ ∃ c, s.component = some c ∧ c.mount = c'.mount ∧
        c'.settings.waiting = c.settings.waiting ++ arrivals c.mount (s.finishes t)) ∧
    (∀ c, s.component = some c →
      (s.turn act (.panel .digest)).component = some { c with settings := c.settings.digest.1 } ∧
      s.drains (.panel .digest : Turn ε) = c.drain ∧ c.drain.map Drained.waited = c.settings.waiting ∧
      c.settings.digest.2.stale = (c.drain.filter fun d => !d.applied).map (·.field) ∧
      ∀ front d back, c.drain = front ++ d :: back →
        (d.applied = true ↔ c.settings.isHydrated d.field = false ∧ d.field ∉ front.map (·.field)) ∧
        (d.applied = true → c.settings.digest.1.cells.get d.field = ⟨d.value, d.value, true⟩) ∧
        (d.applied = false →
          ({ c.settings with waiting := (front ++ back).map Drained.waited } : Settings Unit).digest.1 =
            c.settings.digest.1)) ∧
    (drained.Pairwise fun d d' => d.key = d'.key → d'.applied = false) ∧
    ∀ later c c' k, s.component = some c → (s.turns act later).component = some c' → c'.mount = c.mount →
      c.settings.isHydrated k = true → c'.settings.isHydrated k = true := by
  intro start s reads drained discarded
  have hs : Running s := running_turns act (running_new r visible) ts
  have hanswered : (reads.filterMap ReadTask.result?).Perm
      (s.ready ++ s.queue ++ drained.map Drained.toReadResult ++ discarded) := perm_answered_turns act r visible ts
  refine ⟨?_, hanswered, hs.ready_run act, discarded_of_gone act r visible ts, reads_lt_turns act r visible ts,
    fun t c' hc' => hs.waiting_turn act t hc', ?_, (drawn_turns act r visible ts).once,
    fun later c c' k hc hc' hmount hk => hs.hydrated_turns act hc hk later hc' hmount⟩
  · intro mount k
    have hcount := (hanswered.map ReadResult.key).count_eq (mount, k)
    have hkey : (drained.map Drained.toReadResult).map ReadResult.key = drained.map fun d => d.key := by
      rw [List.map_map]
      rfl
    rw [List.map_append, List.map_append, List.map_append, hkey] at hcount
    simp only [List.count_append] at hcount
    rw [count_answered]
    omega
  · intro c hc
    exact ⟨hs.component_digest act hc, by rw [drains, hc]; rfl, Drained.waited_log _ _ _,
      Settings.stale_applyReads c.mount _ _, fun front d back h => c.digest_drained h⟩

-- The reads of a panel that was replaced before they ran do not reach the new one, which issued its own.
example :
    let start := Session.new (Store.empty true) true
    let ts : List (Turn Store.Step) := [.panel .readAll, .remount true, .panel .readAll, .panel (.remote .resolveAll),
      .panel .run]
    start.collect Store.act discards ts = Field.all.map (fun k => ⟨0, k, none⟩) ∧
      (start.turns Store.act ts).queue = Field.all.map (fun k => ⟨1, k, none⟩) := by
  decide

end Session

end CameraPanel
