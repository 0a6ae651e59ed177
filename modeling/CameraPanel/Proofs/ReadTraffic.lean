import CameraPanel.Proofs.Answers
import CameraPanel.Proofs.Reset
import Mathlib.Data.List.Induction
import Mathlib.Data.List.Perm.Basic

/-!
# What passes between the panels and the remote side

The remote side answers a read at once or gives it a ticket; then its answer is the first one that is delivered under
the ticket.  `Traffic.reads` reads this off the record of what passed: which reads were issued, and which answer each of
them has got.  It knows nothing of tasks.

Panels come and go on one pool (`Turn`).  Whatever happens, the pool agrees with the record: the reads that were issued
are those of the tasks in the pool and of the tasks that ran to their end, each with the answer that the record has for
it (`perm_reads_turns`).
-/

namespace CameraPanel

/-! ### The record -/

/-- What passes between the panels and the remote side. -/
inductive Traffic where
  /-- A read is issued, with what comes back at once. -/
  | issued (read : ReadTask)
  | delivered (d : Delivery Answer)

namespace Traffic

/-- The first answer that is delivered under a ticket. -/
def answer? (ticket : Nat) : List Traffic → Option Answer
  | [] => none
  | issued _ :: rest => answer? ticket rest
  | delivered d :: rest => if d.ticket = ticket then some d.answer else answer? ticket rest

/-- A read after some traffic: if it waits, it takes the first answer under its ticket. -/
def settle (log : List Traffic) (t : ReadTask) : ReadTask :=
  match t.reading with
  | .now _ => t
  | .later ticket => (answer? ticket log).elim t fun a => { t with reading := .now a }

/-- The reads that were issued, oldest first, each with the answer that it has got since. -/
def reads : List Traffic → List ReadTask
  | [] => []
  | issued t :: rest => settle rest t :: reads rest
  | delivered _ :: rest => reads rest

private theorem answer?_append (ticket : Nat) (log later : List Traffic) :
    answer? ticket (log ++ later) = (answer? ticket log).or (answer? ticket later) := by
  induction log with
  | nil => rfl
  | cons x rest ih =>
    cases x with
    | issued t => exact ih
    | delivered d =>
      by_cases hd : d.ticket = ticket
      · simp [answer?, hd]
      · simp [answer?, hd, ih]

private theorem answer?_issued (ticket : Nat) (ts : List ReadTask) : answer? ticket (ts.map issued) = none := by
  induction ts with
  | nil => rfl
  | cons t rest ih => exact ih

private theorem settle_of_now {t : ReadTask} {a : Answer} (h : t.reading = .now a) (log : List Traffic) :
    settle log t = t := by
  simp [settle, h]

private theorem settle_append (log later : List Traffic) (t : ReadTask) :
    settle (log ++ later) t = settle later (settle log t) := by
  cases ht : t.reading with
  | now a => rw [settle_of_now ht, settle_of_now ht, settle_of_now ht]
  | later ticket =>
    cases ha : answer? ticket log with
    | none => simp [settle, ht, answer?_append, ha]
    | some a => simp [settle, ht, answer?_append, ha]

@[simp] private theorem settle_nil : settle [] = id := by
  funext t
  cases ht : t.reading <;> simp [settle, ht, answer?]

private theorem settle_issued (ts : List ReadTask) (t : ReadTask) : settle (ts.map issued) t = t := by
  cases ht : t.reading with
  | now a => exact settle_of_now ht _
  | later ticket => simp [settle, ht, answer?_issued]

private theorem reads_append (log later : List Traffic) :
    reads (log ++ later) = (reads log).map (settle later) ++ reads later := by
  induction log with
  | nil => rfl
  | cons x rest ih =>
    cases x with
    | issued t => simp [reads, settle_append, ih]
    | delivered d => exact ih

theorem mount_settle (log : List Traffic) (t : ReadTask) : (settle log t).mount = t.mount := by
  unfold settle
  split
  · rfl
  · rename_i ticket _
    cases answer? ticket log <;> rfl

/-- The reads after one more piece of traffic, of reads that are issued and then of answers. -/
theorem reads_concat (log : List Traffic) (ts : List ReadTask) (ds : List (Delivery Answer)) :
    reads (log ++ (ts.map issued ++ ds.map delivered)) = (reads log ++ ts).map (settle (ds.map delivered)) := by
  have hdelivered : reads (ds.map delivered) = [] := by
    induction ds with
    | nil => rfl
    | cons d rest ih => exact ih
  have hissued : reads (ts.map issued) = ts := by
    induction ts with
    | nil => rfl
    | cons t rest ih => simp [reads, settle_issued, ih]
  rw [← List.append_assoc, reads_append, reads_append, hdelivered, hissued, List.append_nil]
  simp [settle_issued]

end Traffic

/-! ### The tasks of the pool -/

/-- The answer of a task, if it has one. -/
def ReadTask.answer? (t : ReadTask) : Option Answer :=
  match t.reading with
  | .now a => some a
  | .later _ => none

private theorem ReadTask.answer?_eq_some_iff {t : ReadTask} {a : Answer} : t.answer? = some a ↔ t.reading = .now a := by
  cases ht : t.reading <;> simp [answer?, ht]

private theorem ReadTask.finished?_eq (t : ReadTask) : t.finished? = t.answer?.map fun a => ⟨t.mount, t.field, a⟩ := by
  cases ht : t.reading <;> simp [answer?, finished?, ht]

/-- The task that a finished read had. -/
def FinishedRead.task (f : FinishedRead) : ReadTask := ⟨f.mount, f.field, .now f.answer⟩

private theorem ReadTask.task_of_finished {t : ReadTask} {f : FinishedRead} (h : t.finished? = some f) :
    f.task = t := by
  obtain ⟨hreading, hmount, hfield⟩ := ReadTask.finished?_eq_some_iff.1 h
  obtain ⟨mount, field, reading⟩ := t
  simp only at hreading hmount hfield
  rw [FinishedRead.task, hreading, hmount, hfield]

private theorem map_task_finished (ts : List ReadTask) :
    (ts.filterMap (·.finished?)).map FinishedRead.task = ts.filter fun t => !t.finished?.isNone := by
  induction ts with
  | nil => rfl
  | cons t rest ih =>
    cases hf : t.finished? with
    | none => simpa [hf] using ih
    | some f => simpa [hf, ReadTask.task_of_finished hf] using ih

private theorem settle_delivered (d : Delivery Answer) :
    Traffic.settle [.delivered d] = fun t => if t.awaits d.ticket then t.answered d.answer else t := by
  funext t
  cases ht : t.reading with
  | now a => simp [Traffic.settle, ReadTask.awaits, ht]
  | later ticket =>
    by_cases hd : ticket = d.ticket
    · simp [Traffic.settle, Traffic.answer?, ReadTask.awaits, ReadTask.answered, ht, hd]
    · simp [Traffic.settle, Traffic.answer?, ReadTask.awaits, ht, hd, Ne.symm hd]

namespace Pool

/-- Woken tasks have their answers, and parked ones have none. -/
structure Sound (p : Pool) : Prop where
  woken : ∀ t ∈ p.woken, t.answer?.isSome = true
  parked : ∀ t ∈ p.parked, t.answer? = none

private theorem sound_empty : empty.Sound := ⟨by simp [empty], by simp [empty]⟩

private theorem Sound.start {p : Pool} (hp : p.Sound) (t : ReadTask) : (p.start t).Sound := ⟨hp.woken, hp.parked⟩

private theorem Sound.deliver {p : Pool} (hp : p.Sound) (d : Delivery Answer) : (p.deliver d).Sound where
  woken t ht := by
    rcases List.mem_append.1 ht with ht | ht
    · exact hp.woken t ht
    · obtain ⟨t', -, rfl⟩ := List.mem_map.1 ht
      rfl
  parked t ht := hp.parked t (List.mem_filter.1 ht).1

private theorem Sound.deliverAll {p : Pool} (hp : p.Sound) (ds : List (Delivery Answer)) : (p.deliverAll ds).Sound := by
  induction ds generalizing p with
  | nil => exact hp
  | cons d rest ih => exact ih (hp.deliver d)

theorem Sound.run {p : Pool} (hp : p.Sound) : p.run.1.Sound where
  woken t ht := by cases ht
  parked t ht := by
    rcases List.mem_append.1 ht with ht | ht
    · exact hp.parked t ht
    · have hnone := (List.mem_filter.1 ht).2
      rw [ReadTask.finished?_eq] at hnone
      simpa using hnone

private theorem Sound.finish {p : Pool} (hp : p.Sound) (n : Nat) : (p.finish n).1.Sound := by
  unfold Pool.finish
  split
  · split
    · exact ⟨fun t ht => hp.woken t (List.mem_of_mem_eraseIdx ht), hp.parked⟩
    · exact ⟨hp.woken, hp.parked⟩
  · exact hp

/-- A delivery does to the tasks what the record says. -/
private theorem Sound.perm_deliver {p : Pool} (hp : p.Sound) (d : Delivery Answer) :
    (p.deliver d).tasks.Perm (p.tasks.map (Traffic.settle [.delivered d])) := by
  have hwoken : p.woken.map (Traffic.settle [.delivered d]) = p.woken := by
    refine (List.map_congr_left fun t ht => ?_).trans (List.map_id _)
    obtain ⟨a, ha⟩ := Option.isSome_iff_exists.1 (hp.woken t ht)
    exact Traffic.settle_of_now (ReadTask.answer?_eq_some_iff.1 ha) _
  have hawaits : (p.parked.filter (·.awaits d.ticket)).map (·.answered d.answer) =
      (p.parked.filter (·.awaits d.ticket)).map (Traffic.settle [.delivered d]) := by
    refine List.map_congr_left fun t ht => ?_
    have ht' : t.awaits d.ticket = true := (List.mem_filter.1 ht).2
    simp [settle_delivered, ht']
  have hother : (p.parked.filter fun t => !t.awaits d.ticket).map (Traffic.settle [.delivered d]) =
      p.parked.filter fun t => !t.awaits d.ticket := by
    refine (List.map_congr_left fun t ht => ?_).trans (List.map_id _)
    have ht' : t.awaits d.ticket = false := by simpa using (List.mem_filter.1 ht).2
    simp [settle_delivered, ht']
  have hparked := (List.filter_append_perm (·.awaits d.ticket) p.parked).map (Traffic.settle [.delivered d])
  rw [List.map_append, hother] at hparked
  simp only [tasks, Pool.deliver, List.map_append, List.append_assoc, hwoken, hawaits, ← settle_delivered]
  exact (List.perm_append_comm_assoc _ _ _ |>.trans (hparked.append_left _)).append_left _

private theorem Sound.perm_deliverAll {p : Pool} (hp : p.Sound) (ds : List (Delivery Answer)) :
    (p.deliverAll ds).tasks.Perm (p.tasks.map (Traffic.settle (ds.map .delivered))) := by
  induction ds generalizing p with
  | nil =>
    rw [List.map_nil, Traffic.settle_nil, List.map_id]
    rfl
  | cons d rest ih =>
    have hsettle : Traffic.settle ((d :: rest).map .delivered) =
        Traffic.settle (rest.map .delivered) ∘ Traffic.settle [.delivered d] := by
      funext t
      exact Traffic.settle_append [.delivered d] _ t
    rw [hsettle, ← List.map_map]
    exact (ih (hp.deliver d)).trans ((hp.perm_deliver d).map _)

/-- A run takes tasks out of the pool only to finish them. -/
private theorem perm_run (p : Pool) : (p.run.1.tasks ++ p.run.2.map FinishedRead.task).Perm p.tasks := by
  have hready := List.filter_append_perm (·.finished?.isNone) (p.woken ++ p.started)
  show (p.parked ++ (p.woken ++ p.started).filter (fun t => t.finished?.isNone) ++
    ((p.woken ++ p.started).filterMap (·.finished?)).map FinishedRead.task).Perm (p.woken ++ p.started ++ p.parked)
  rw [map_task_finished, List.append_assoc]
  exact (hready.append_left p.parked).trans List.perm_append_comm

private theorem perm_finish (p : Pool) (n : Nat) :
    ((p.finish n).1.tasks ++ (p.finish n).2.map FinishedRead.task).Perm p.tasks := by
  have herase : ∀ {l : List ReadTask} {i : Nat} {t : ReadTask} {f : FinishedRead}, l[i]? = some t →
      t.finished? = some f → (f.task :: l.eraseIdx i).Perm l := by
    intro l i t f ht hf
    obtain ⟨hi, rfl⟩ := List.getElem?_eq_some_iff.1 ht
    rw [ReadTask.task_of_finished hf]
    exact List.getElem_cons_eraseIdx_perm hi
  unfold finish
  split
  · rename_i f hf
    obtain ⟨t, ht, hfinished⟩ := Option.bind_eq_some_iff.1 hf
    split
    · rename_i hn
      rw [List.getElem?_append_left hn] at ht
      exact List.perm_append_comm.trans (((herase ht hfinished).append_right p.started).append_right p.parked)
    · rename_i hn
      rw [List.getElem?_append_right (Nat.le_of_not_lt hn)] at ht
      have hstarted := ((herase ht hfinished).append_left p.woken).append_right p.parked
      refine List.perm_append_comm.trans (List.Perm.trans ?_ hstarted)
      simp only [tasks, List.append_assoc, List.cons_append, List.map_cons, List.map_nil, List.nil_append]
      exact List.perm_middle.symm
  · simp

end Pool

/-! ### Reads that reach the remote side -/

/-- A remote side with a record of the reads that it was asked for, each with what it gave back at once. -/
structure Metered (ρ : Type) where
  side : ρ
  asked : List (Field × Reading Answer)

namespace Metered

variable {ρ ε : Type} [RemoteSide ρ]

instance : RemoteSide (Metered ρ) where
  read m k := do
    let (side, reading) ← RemoteSide.read m.side k
    return (⟨side, m.asked ++ [(k, reading)]⟩, reading)
  write m k v := do
    let side ← RemoteSide.write m.side k v
    return { m with side }
  outstanding m := RemoteSide.outstanding m.side

def act (act : ε → ρ → ρ × List (Delivery Answer)) (e : ε) (m : Metered ρ) : Metered ρ × List (Delivery Answer) :=
  ({ m with side := (act e m.side).1 }, (act e m.side).2)

private theorem asked_sendAll (m : Metered ρ) (writes : List (Field × Double)) :
    (sendAll m writes).asked = m.asked := by
  induction writes generalizing m with
  | nil => rfl
  | cons w rest ih => exact ih _

end Metered

namespace Component

variable {ρ : Type} [RemoteSide ρ]

private theorem sound_startReads (c : Component) (ks : List Field) (r : ρ) {p : Pool} (hp : p.Sound) :
    (c.startReads ks r p).value.2.Sound := by
  induction ks generalizing r p with
  | nil => exact hp
  | cons k rest ih => exact ih _ (hp.start _)

/-- Each read that reaches the remote side has its task in the pool. -/
private theorem perm_startReads (c : Component) (ks : List Field) (r : ρ) (asked : List (Field × Reading Answer))
    (p : Pool) :
    ∃ more, (c.startReads ks (⟨r, asked⟩ : Metered ρ) p).value.1.asked = asked ++ more ∧
      (c.startReads ks r p).value.2.tasks.Perm (p.tasks ++ more.map fun q => ⟨c.mount, q.1, q.2⟩) := by
  induction ks generalizing r asked p with
  | nil => exact ⟨[], (List.append_nil _).symm, by simp [startReads]⟩
  | cons k rest ih =>
    obtain ⟨more, hasked, htasks⟩ := ih (RemoteSide.read r k).value.1 (asked ++ [(k, (RemoteSide.read r k).value.2)])
      (p.start ⟨c.mount, k, (RemoteSide.read r k).value.2⟩)
    refine ⟨(k, (RemoteSide.read r k).value.2) :: more, hasked.trans (List.append_assoc _ _ _), htasks.trans ?_⟩
    simp only [Pool.tasks, Pool.start, List.map_cons, List.append_assoc, List.singleton_append]
    exact (List.perm_middle.symm.append_left _).append_left _

end Component

namespace Session

variable {ρ ε : Type} [RemoteSide ρ] (act : ε → ρ → ρ × List (Delivery Answer))

/-! ### Turns -/

/-- What happens while panels come and go on one pool. -/
inductive Turn (ε : Type) where
  | panel (st : Step ε)
  | unmount
  | remount (visible : Bool)
  /-- The holder of the session lets the remote side go. -/
  | forget

def turn (s : Session ρ) : Turn ε → Session ρ
  | .panel st => s.step act st
  | .unmount => s.unmount
  | .remount visible => s.remount visible
  | .forget => s.forgetRemote

def turns (s : Session ρ) (ts : List (Turn ε)) : Session ρ := ts.foldl (turn act) s

/-- What the turns of a run bring, oldest first. -/
def collect {β : Type} (bring : Session ρ → Turn ε → List β) (s : Session ρ) : List (Turn ε) → List β
  | [] => []
  | t :: rest => bring s t ++ collect bring (s.turn act t) rest

theorem turns_concat (s : Session ρ) (ts : List (Turn ε)) (t : Turn ε) :
    s.turns act (ts ++ [t]) = (s.turns act ts).turn act t := by
  simp [turns]

theorem collect_concat {β : Type} (bring : Session ρ → Turn ε → List β) (s : Session ρ) (ts : List (Turn ε))
    (t : Turn ε) : s.collect act bring (ts ++ [t]) = s.collect act bring ts ++ bring (s.turns act ts) t := by
  induction ts generalizing s with
  | nil => exact List.append_nil _
  | cons u rest ih =>
    show bring s u ++ (s.turn act u).collect act bring (rest ++ [t]) = _
    rw [ih, ← List.append_assoc]
    rfl

/-! ### The traffic of a turn -/

def metered (s : Session ρ) : Session (Metered ρ) := { s with remote := s.remote.map fun r => ⟨r, []⟩ }

/-- The reads that reach the remote side in a turn. -/
def asks (s : Session ρ) (t : Turn ε) : List (Field × Reading Answer) :=
  (s.metered.turn (Metered.act act) t).remote.elim [] (·.asked)

/-- The reads that the mounted panel issues in a turn. -/
def issues (s : Session ρ) (t : Turn ε) : List ReadTask :=
  s.component.elim [] fun c => (s.asks act t).map fun q => ⟨c.mount, q.1, q.2⟩

/-- What those who wait hear when the remote side goes away. -/
def lost (before after : Option ρ) : List (Delivery Answer) :=
  match before, after with
  | some r, none => Delivery.lost (RemoteSide.outstanding r)
  | _, _ => []

/-- The answers that the remote side delivers in a turn. -/
def delivers (s : Session ρ) : Turn ε → List (Delivery Answer)
  | .panel (.remote e) => s.remote.elim [] fun r => (act e r).2
  | .panel _ => []
  | t => lost s.remote (s.turn act t).remote

def traffic (s : Session ρ) (t : Turn ε) : List Traffic :=
  (s.issues act t).map .issued ++ (s.delivers act t).map .delivered

/-- The tasks in the pool. -/
def tasks (s : Session ρ) : List ReadTask := s.pool.elim [] Pool.tasks

/-- The reads whose tasks run to their end in a turn. -/
def finishes (s : Session ρ) : Turn ε → List FinishedRead
  | .panel .run => s.pool.elim [] fun p => p.run.2
  | .panel (.finish n) => s.pool.elim [] fun p => (p.finish n).2
  | _ => []

/-! ### One turn -/

/-- The pool is there, and a mounted panel has its remote side and the latest number. -/
inductive Running : Session ρ → Prop
  | mounted (r : ρ) (held : Bool) (c : Component) (p : Pool) (hc : c.settings.OfPanel) (hp : p.Sound) :
    Running ⟨some r, held, some c, some p, c.mount + 1⟩
  | idle (remote : Option ρ) (held : Bool) (p : Pool) (mounts : Nat) (hremote : held = true → remote.isSome = true)
    (hp : p.Sound) : Running ⟨remote, held, none, some p, mounts⟩

theorem step_mounted (r : ρ) (held : Bool) (c : Component) (p : Pool) (mounts : Nat) (st : Step ε) :
    (⟨some r, held, some c, some p, mounts⟩ : Session ρ).step act st =
      ⟨some (moved act c r p st).1, held,
        some { c with settings := c.settings.after ((linked (some c) r p mounts).event st) },
        some (moved act c r p st).2, mounts⟩ := by
  have hheld : (⟨some r, held, some c, some p, mounts⟩ : Session ρ).step act st =
      { (linked (some c) r p mounts).step act st with held } := by
    cases st <;> rfl
  rw [hheld, step_linked]
  rfl

private theorem sound_moved (c : Component) (r : ρ) {p : Pool} (hp : p.Sound) (st : Step ε) :
    (moved act c r p st).2.Sound := by
  cases st with
  | readAll => exact c.sound_startReads Field.all r hp
  | run => exact hp.run
  | finish n => exact hp.finish n
  | remote e => exact hp.deliverAll _
  | _ => exact hp

private theorem asked_moved (c : Component) (r : ρ) (p : Pool) {st : Step ε} (hst : st ≠ .readAll) :
    (moved (Metered.act act) c ⟨r, []⟩ p st).1.asked = [] := by
  cases st with
  | readAll => exact absurd rfl hst
  | reset | digest => exact Metered.asked_sendAll ⟨r, []⟩ _
  | _ => rfl

/-- In a step of a mounted panel the tasks that start are those of the reads that reach the remote side. -/
private theorem perm_moved (r : ρ) (held : Bool) (c : Component) {p : Pool} (hp : p.Sound) (mounts : Nat)
    (st : Step ε) :
    let s : Session ρ := ⟨some r, held, some c, some p, mounts⟩
    ((moved act c r p st).2.tasks ++ (s.finishes (.panel st)).map FinishedRead.task).Perm
      ((p.tasks ++ s.issues act (.panel st)).map (Traffic.settle ((s.delivers act (.panel st)).map .delivered))) := by
  intro s
  have hissues : s.issues act (.panel st) =
      (moved (Metered.act act) c ⟨r, []⟩ p st).1.asked.map fun q => ⟨c.mount, q.1, q.2⟩ := by
    show (((⟨some ⟨r, []⟩, held, some c, some p, mounts⟩ : Session (Metered ρ)).step (Metered.act act) st).remote.elim
      [] (·.asked)).map _ = _
    rw [step_mounted]
    rfl
  rw [hissues]
  by_cases hst : st = .readAll
  · subst hst
    obtain ⟨more, hasked, htasks⟩ := c.perm_startReads Field.all r [] p
    have hmore : (moved (Metered.act act) c ⟨r, []⟩ p .readAll).1.asked = more := hasked
    rw [hmore]
    simpa [s, finishes, delivers, moved, Component.readAll] using htasks
  · rw [asked_moved act c r p hst, List.map_nil, List.append_nil]
    cases st with
    | readAll => exact absurd rfl hst
    | run => simpa [s, finishes, delivers, moved] using p.perm_run
    | finish n => simpa [s, finishes, delivers, moved] using p.perm_finish n
    | remote e => simpa [s, finishes, delivers, moved] using hp.perm_deliverAll (act e r).2
    | _ => simp [finishes, delivers, moved]

theorem step_idle (remote : Option ρ) (held : Bool) {p : Pool} (hp : p.Sound) (mounts : Nat) (st : Step ε) :
    let s : Session ρ := ⟨remote, held, none, some p, mounts⟩
    ∃ remote' p', s.step act st = ⟨remote', held, none, some p', mounts⟩ ∧ remote'.isSome = remote.isSome ∧ p'.Sound ∧
      (p'.tasks ++ (s.finishes (.panel st)).map FinishedRead.task).Perm
        (p.tasks.map (Traffic.settle ((s.delivers act (.panel st)).map .delivered))) := by
  intro s
  cases st with
  | run => exact ⟨remote, p.run.1, rfl, rfl, hp.run, by simpa [s, finishes, delivers] using p.perm_run⟩
  | finish n =>
    exact ⟨remote, (p.finish n).1, rfl, rfl, hp.finish n, by simpa [s, finishes, delivers] using p.perm_finish n⟩
  | remote e =>
    cases remote with
    | none => exact ⟨none, p, rfl, rfl, hp, by simp [s, finishes, delivers]⟩
    | some r =>
      refine ⟨some (act e r).1, p.deliverAll (act e r).2, rfl, rfl, hp.deliverAll _, ?_⟩
      simpa [s, finishes, delivers] using hp.perm_deliverAll (act e r).2
  | _ => exact ⟨remote, p, rfl, rfl, hp, by simp [finishes, delivers]⟩

theorem release_idle (remote : Option ρ) (held : Bool) (p : Pool) (mounts : Nat) :
    ∃ remote', (⟨remote, held, none, some p, mounts⟩ : Session ρ).release =
        ⟨remote', held, none, some (p.deliverAll (lost remote remote')), mounts⟩ ∧
      (held = true → remote' = remote) := by
  cases remote with
  | none => exact ⟨none, rfl, fun _ => rfl⟩
  | some r =>
    cases held with
    | true => exact ⟨some r, rfl, fun _ => rfl⟩
    | false => exact ⟨none, rfl, by simp⟩

private theorem issues_eq_nil (s : Session ρ) {t : Turn ε} (ht : ∀ st, t ≠ .panel st) : s.issues act t = [] := by
  have hasks : s.asks act t = [] := by
    obtain ⟨remote, held, component, pool, mounts⟩ := s
    cases t with
    | panel st => exact absurd rfl (ht st)
    | unmount => cases remote <;> cases held <;> rfl
    | remount visible => cases remote <;> cases held <;> rfl
    | forget => cases remote <;> cases component <;> rfl
  rw [issues, hasks]
  cases s.component <;> rfl

omit [RemoteSide ρ] in
theorem running_new (r : ρ) (visible : Bool) : Running (Session.new r visible) :=
  .mounted r true (.new 0 visible) .empty (Component.ofPanel_new 0 visible) Pool.sound_empty

theorem Running.turn {s : Session ρ} (hs : Running s) (t : Turn ε) : Running (s.turn act t) := by
  have hidle : ∀ (remote : Option ρ) (held : Bool) (p : Pool) (mounts : Nat), (held = true → remote.isSome = true) →
      p.Sound → Running (⟨remote, held, none, some p, mounts⟩ : Session ρ).release := by
    intro remote held p mounts hremote hp
    obtain ⟨remote', heq, hsame⟩ := release_idle remote held p mounts
    rw [heq]
    refine .idle remote' held _ mounts (fun hheld => ?_) (hp.deliverAll _)
    rw [hsame hheld]
    exact hremote hheld
  cases hs with
  | mounted r held c p hc hp =>
    cases t with
    | panel st =>
      rw [Session.turn, step_mounted]
      exact .mounted _ held _ _ (hc.after _) (sound_moved act c r hp st)
    | unmount => exact hidle (some r) held p _ (fun _ => rfl) hp
    | remount visible =>
      cases held with
      | true => exact .mounted r true (.new (c.mount + 1) visible) p (Component.ofPanel_new _ _) hp
      | false => exact hidle (some r) false p _ (fun _ => rfl) hp
    | forget => exact .mounted r false c p hc hp
  | idle remote held p mounts hremote hp =>
    cases t with
    | panel st =>
      obtain ⟨remote', p', heq, hsame, hp', -⟩ := step_idle act remote held hp mounts st
      rw [Session.turn, heq]
      exact .idle remote' held p' mounts (by rwa [hsame]) hp'
    | unmount => exact hidle remote held p mounts hremote hp
    | remount visible =>
      cases held with
      | true =>
        obtain ⟨r, rfl⟩ := Option.isSome_iff_exists.1 (hremote rfl)
        exact .mounted r true (.new mounts visible) p (Component.ofPanel_new _ _) hp
      | false => exact hidle remote false p mounts hremote hp
    | forget => exact hidle remote false p mounts (by simp) hp

theorem running_turns {s : Session ρ} (hs : Running s) (ts : List (Turn ε)) : Running (s.turns act ts) := by
  induction ts generalizing s with
  | nil => exact hs
  | cons t rest ih => exact ih (hs.turn act t)

/-- The pool follows the traffic of a turn: it gets the tasks of the reads that are issued, hands the answers to those
who wait for them, and loses a task only when that is finished. -/
private theorem Running.perm_tasks_turn {s : Session ρ} (hs : Running s) (t : Turn ε) :
    ((s.turn act t).tasks ++ (s.finishes t).map FinishedRead.task).Perm
      ((s.tasks ++ s.issues act t).map (Traffic.settle ((s.delivers act t).map .delivered))) := by
  have hrelease : ∀ (remote : Option ρ) (held : Bool) {p : Pool} (mounts : Nat), p.Sound →
      (tasks (⟨remote, held, none, some p, mounts⟩ : Session ρ).release ++ []).Perm ((p.tasks ++ []).map
        (Traffic.settle ((lost remote (⟨remote, held, none, some p, mounts⟩ : Session ρ).release.remote).map
          .delivered))) := by
    intro remote held p mounts hp
    obtain ⟨remote', heq, -⟩ := release_idle remote held p mounts
    rw [heq, List.append_nil, List.append_nil]
    exact hp.perm_deliverAll _
  cases hs with
  | mounted r held c p hc hp =>
    cases t with
    | panel st =>
      rw [Session.turn, step_mounted]
      exact perm_moved act r held c hp _ st
    | unmount =>
      rw [issues_eq_nil act _ (by simp)]
      exact hrelease (some r) held _ hp
    | remount visible =>
      rw [issues_eq_nil act _ (by simp)]
      cases held with
      | true => simp [finishes, delivers, tasks, Session.turn, remount, lost]
      | false => exact hrelease (some r) false _ hp
    | forget =>
      rw [issues_eq_nil act _ (by simp)]
      simp [finishes, delivers, tasks, Session.turn, forgetRemote, release, lost]
  | idle remote held p mounts hremote hp =>
    cases t with
    | panel st =>
      obtain ⟨remote', p', heq, -, -, htasks⟩ := step_idle act remote held hp mounts st
      rw [Session.turn, heq]
      simpa [tasks, issues] using htasks
    | unmount => exact hrelease remote held mounts hp
    | remount visible =>
      cases held with
      | true =>
        obtain ⟨r, rfl⟩ := Option.isSome_iff_exists.1 (hremote rfl)
        simp [finishes, delivers, tasks, issues, Session.turn, remount, lost]
      | false => exact hrelease remote false mounts hp
    | forget => exact hrelease remote false mounts hp

/-! ### Whole runs -/

/-- The reads that were issued in a run are those of the tasks in the pool and of the tasks that ran to their end, with
the answers that were delivered to them. -/
theorem perm_reads_turns (r : ρ) (visible : Bool) (ts : List (Turn ε)) :
    (Traffic.reads ((Session.new r visible).collect act (traffic act) ts)).Perm
      (((Session.new r visible).turns act ts).tasks ++
        ((Session.new r visible).collect act finishes ts).map FinishedRead.task) := by
  induction ts using List.reverseRecOn with
  | nil => rfl
  | append_singleton ts t ih =>
    have hs := running_turns act (running_new r visible) ts
    generalize hs' : (Session.new r visible).turns act ts = s at ih hs
    -- what is finished has its answer and hears nothing more
    have hfinished : ∀ (fs : List FinishedRead) (log : List Traffic),
        (fs.map FinishedRead.task).map (Traffic.settle log) = fs.map FinishedRead.task := by
      intro fs log
      rw [List.map_map]
      exact List.map_congr_left fun f _ => Traffic.settle_of_now rfl log
    rw [turns_concat, collect_concat, collect_concat, hs', traffic, Traffic.reads_concat, List.map_append,
      List.map_append]
    have hturn := hs.perm_tasks_turn act t
    have hreads := ih.map (Traffic.settle ((s.delivers act t).map .delivered))
    rw [List.map_append, hfinished] at hreads
    rw [List.map_append] at hturn
    classical
    rw [List.perm_iff_count] at hturn hreads ⊢
    intro x
    have hturn := hturn x
    have hreads := hreads x
    simp only [List.count_append] at hturn hreads ⊢
    omega

end Session

end CameraPanel
