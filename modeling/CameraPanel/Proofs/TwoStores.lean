import CameraPanel.Proofs.Answers
import CameraPanel.Proofs.EngineSide

/-!
# Two stores that agree

Somebody who starts reads and writes, looks at reads or gives them up, and now and then has all reads answered that were
held back, cannot tell the store in memory from the engine, except that an answer of the engine comes as the text of a
reply.  The two sides are kept side by side (`Client.Matches`): they hold the same values, and the chunks that the
engine holds back are those of the reads that wait in the store, under the same tickets.  One step keeps this up
whatever it is (`Matches.step`), so a whole run does.
-/

namespace CameraPanel

/-! ### Reads in an inbox -/

namespace Inbox

variable {α : Type}

/-- A started read as the one who asked for it sees it. -/
def Item.ofReading : Reading α → Item α
  | .now a => .ready a
  | .later t => .waiting t

theorem get_add (b : Inbox α) (r : Reading α) (n : Nat) :
    (b.add r).1.get n = if n = b.items.length then .ofReading r else b.get n := by
  have hitems : (b.add r).1.items = b.items ++ [.ofReading r] := by cases r <;> rfl
  rw [get, get, hitems]
  rcases Nat.lt_trichotomy n b.items.length with h | h | h
  · rw [List.getElem?_append_left h, if_neg h.ne]
  · simp [h]
  · rw [List.getElem?_eq_none (by simp; omega), List.getElem?_eq_none h.le, if_neg h.ne']

theorem get_deliver (b : Inbox α) (d : Delivery α) (n : Nat) : (b.deliver d).get n = (b.get n).deliver d := by
  rw [get, get, deliver, List.getElem?_map]
  cases b.items[n]? <;> rfl

private theorem get_set_gone (b : Inbox α) (n j : Nat) :
    get ⟨b.items.set n .gone⟩ j = if j = n then .gone else b.get j := by
  rw [get, get, List.getElem?_set]
  by_cases hj : n = j
  · subst hj
    by_cases hn : n < b.items.length <;> simp [hn]
  · rw [if_neg hj, if_neg (Ne.symm hj)]

/-- A read after it was looked at: an answer is taken away. -/
def Item.polled : Item α → Item α
  | .ready _ => .gone
  | item => item

theorem get_poll (b : Inbox α) (n j : Nat) : (b.poll n).1.get j = if j = n then (b.get j).polled else b.get j := by
  by_cases hj : j = n
  · subst hj
    rw [poll, if_pos rfl]
    cases hitem : b.get j with
    | ready a => simp [get_set_gone, Item.polled]
    | waiting t => exact hitem
    | gone => exact hitem
  · rw [poll, if_neg hj]
    cases b.get n with
    | ready a => simp [get_set_gone, hj]
    | waiting t => rfl
    | gone => rfl

private theorem poll_snd (b : Inbox α) (n : Nat) : (b.poll n).2 = b.get n := by
  rw [poll]
  split
  · rename_i h
    exact h.symm
  · rfl

theorem get_drop (b : Inbox α) (n j : Nat) : (b.drop n).1.get j = if j = n then .gone else b.get j := by
  rw [drop]
  split
  · rename_i h
    by_cases hj : j = n
    · rw [if_pos hj, hj, h]
    · rw [if_neg hj]
  · exact b.get_set_gone n j

theorem length_add (b : Inbox α) (r : Reading α) : (b.add r).1.items.length = b.items.length + 1 := by
  simp [add]

theorem length_deliverAll (b : Inbox α) (ds : List (Delivery α)) : (b.deliverAll ds).items.length = b.items.length := by
  induction ds generalizing b with
  | nil => rfl
  | cons d rest ih => exact (ih _).trans (by simp [deliver])

theorem length_poll (b : Inbox α) (n : Nat) : (b.poll n).1.items.length = b.items.length := by
  rw [poll]
  split <;> simp

theorem length_drop (b : Inbox α) (n : Nat) : (b.drop n).1.items.length = b.items.length := by
  rw [drop]
  split <;> simp

end Inbox

/-! ### Answers through a reply -/

/-- A value that was told in a reply, as it is heard. -/
def Answer.told (value : Option Double) : Answer := (value.map fun v => Reply.decode (Reply.encode v)).getD (.ok none)

/-- What a read shows when the store in memory answers, and what it shows when the engine does. -/
inductive Inbox.Item.Tells : Item Answer → Item Answer → Prop where
  | waiting (ticket : Nat) : Tells (.waiting ticket) (.waiting ticket)
  | ready (value : Option Double) : Tells (.ready (.ok value)) (.ready (Answer.told value))
  | gone : Tells .gone .gone

namespace Inbox.Item.Tells

variable {i i' : Item Answer}

private theorem polled (h : Tells i i') : Tells i.polled i'.polled := by
  cases h with
  | waiting t => exact .waiting t
  | ready value => exact .gone
  | gone => exact .gone

private theorem deliver (h : Tells i i') (ticket : Nat) (value : Option Double) :
    Tells (i.deliver ⟨ticket, .ok value⟩) (i'.deliver ⟨ticket, Answer.told value⟩) := by
  cases h with
  | waiting t =>
    simp only [Item.deliver]
    split
    · exact .ready value
    · exact .waiting t
  | ready value' => exact .ready value'
  | gone => exact .gone

end Inbox.Item.Tells

/-! ### All reads answered -/

namespace Store

private theorem resolveEach_pendingFields (s : Store) :
    s.resolveEach s.pendingFields =
      ({ s with pending := [] }, s.pending.map fun p => ⟨p.2, .ok (s.value p.1)⟩) := by
  obtain ⟨values, writes, reads, deferred, pending⟩ := s
  induction pending with
  | nil => rfl
  | cons p rest ih =>
    obtain ⟨k, ticket⟩ := p
    have hresolve : resolve ⟨values, writes, reads, deferred, (k, ticket) :: rest⟩ k =
        (⟨values, writes, reads, deferred, rest⟩, some ⟨ticket, .ok (values.get k)⟩) := by
      simp [resolve, answer, oldest?, value]
    show resolveEach _ (k :: rest.map (·.1)) = _
    rw [resolveEach, hresolve]
    simp only [pendingFields] at ih
    simp only [ih]
    rfl

theorem resolveAll_eq (s : Store) :
    s.resolveAll = ({ s with pending := [] }, s.pending.map fun p => ⟨p.2, .ok (s.value p.1)⟩) :=
  s.resolveEach_pendingFields

/-- The store after an occasion, and the answers that it delivers. -/
def serve : Occasion → Store → Store × List (Delivery Answer)
  | .defer, s => (s.defer, [])
  | .answerAll, s => s.resolveAll

/-- A store that holds the given offsets, or nothing. -/
def seeded (seed : Option Offsets) (deferred : Bool) : Store := (seed.map (ofOffsets · deferred)).getD (empty deferred)

end Store

/-- An engine that holds the given offsets, or nothing. -/
def Engine.seeded (seed : Option Offsets) (deferred : Bool) : Engine :=
  .new ((seed.map .ofOffsets).getD .empty) deferred

/-! ### Clients -/

/-- A remote side with the reads that somebody asked it for. -/
structure Client (ρ : Type) where
  side : ρ
  inbox : Inbox Answer

namespace Client

inductive Step where
  | read (k : Field)
  | write (k : Field) (v : Double)
  /-- Looks at a read. -/
  | poll (n : Nat)
  /-- Gives a read up. -/
  | drop (n : Nat)
  | remote (o : Occasion)

section Run

variable {ρ : Type} [RemoteSide ρ] (serve : Occasion → ρ → ρ × List (Delivery Answer))

def step (c : Client ρ) : Step → Client ρ
  | .read k => ⟨(RemoteSide.read c.side k).value.1, (c.inbox.add (RemoteSide.read c.side k).value.2).1⟩
  | .write k v => { c with side := (RemoteSide.write c.side k v).value }
  | .poll n => { c with inbox := (c.inbox.poll n).1 }
  | .drop n => { c with inbox := (c.inbox.drop n).1 }
  | .remote o => ⟨(serve o c.side).1, c.inbox.deliverAll (serve o c.side).2⟩

/-- A run of steps from a remote side that nobody has asked anything. -/
def run (r : ρ) (steps : List Step) : Client ρ := steps.foldl (step serve) ⟨r, .empty⟩

end Run

/-- A client of the store in memory and a client of the engine that have seen the same. -/
structure Matches (m : Client Store) (e : Client Engine) : Prop where
  values : ∀ k, m.side.value k = e.side.setting k.name
  deferred : m.side.deferred = e.side.deferred
  tickets : m.side.reads = e.side.nextTicket
  queued : e.side.queued = m.side.pending.map Engine.heldRead
  asked : m.inbox.items.length = e.inbox.items.length
  items : ∀ n, (m.inbox.get n).Tells (e.inbox.get n)

private theorem matches_seeded (seed : Option Offsets) (deferred : Bool) :
    Matches ⟨.seeded seed deferred, .empty⟩ ⟨.seeded seed deferred, .empty⟩ := by
  refine ⟨fun k => ?_, ?_, ?_, ?_, rfl, fun n => .gone⟩
  · cases seed with
    | none => exact PerField.get_fill _ k
    | some offsets => exact (PerField.get_map _ _ k).trans (SettingTable.get?_ofOffsets offsets k).symm
  all_goals cases seed <;> rfl

namespace Matches

variable {m : Client Store} {e : Client Engine}

private theorem told (h : Matches m e) (k : Field) :
    answerOfReply (.ok (Engine.replyFor e.side.settings k)) = Answer.told (m.side.value k) := by
  rw [Engine.answerOfReply_replyFor, h.values]
  rfl

private theorem items_add (h : Matches m e) {r r' : Reading Answer}
    (hr : (Inbox.Item.ofReading r).Tells (.ofReading r'))
    (n : Nat) : ((m.inbox.add r).1.get n).Tells ((e.inbox.add r').1.get n) := by
  rw [Inbox.get_add, Inbox.get_add, h.asked]
  split
  · exact hr
  · exact h.items n

private theorem asked_add (h : Matches m e) (r r' : Reading Answer) :
    (m.inbox.add r).1.items.length = (e.inbox.add r').1.items.length := by
  rw [Inbox.length_add, Inbox.length_add, h.asked]

private theorem read (h : Matches m e) (k : Field) :
    Matches (m.step Store.serve (.read k)) (e.step Engine.serve (.read k)) := by
  have hread : (RemoteSide.read m.side k).value = (m.side.read k).value := rfl
  cases hdeferred : m.side.deferred with
  | true =>
    -- No side looks at its values before the read is answered.
    have hitem : (Inbox.Item.ofReading (.later m.side.reads)).Tells (.ofReading (.later e.side.nextTicket)) := by
      rw [h.tickets]
      exact .waiting _
    simp only [step, hread, Store.read_of_deferred hdeferred, Engine.read_of_deferred (h.deferred ▸ hdeferred)]
    refine ⟨h.values, h.deferred, congrArg (· + 1) h.tickets, ?_, h.asked_add (.later _) (.later _), h.items_add hitem⟩
    simp only [h.queued, List.map_append, h.tickets]
    rfl
  | false =>
    -- Both sides answer with the value that they hold now.
    have hitem : (Inbox.Item.ofReading (.now (.ok (m.side.value k)))).Tells
        (.ofReading (.now (answerOfReply (.ok (Engine.replyFor e.side.settings k))))) := by
      rw [h.told]
      exact .ready _
    simp only [step, hread, Store.read_of_not_deferred hdeferred, Engine.read_of_not_deferred (h.deferred ▸ hdeferred)]
    exact ⟨h.values, h.deferred, congrArg (· + 1) h.tickets, h.queued, h.asked_add (.now _) (.now _), h.items_add hitem⟩

private theorem write (h : Matches m e) (k : Field) (v : Double) :
    Matches (m.step Store.serve (.write k v)) (e.step Engine.serve (.write k v)) := by
  simp only [step, Engine.write_value]
  refine ⟨fun j => ?_, h.deferred, h.tickets, h.queued, h.asked, h.items⟩
  show (m.side.values.set k (some v)).get j = (e.side.settings.insert k.name v).get? j.name
  rw [SettingTable.get?_insert_name]
  by_cases hj : j = k
  · rw [if_pos hj, hj, PerField.get_set_self]
  · rw [if_neg hj, PerField.get_set_of_ne _ _ hj]
    exact h.values j

/-- Both sides answer the same reads in the same order, each with the value held by both. -/
private theorem deliverAll {b b' : Inbox Answer} (hitems : ∀ n, (b.get n).Tells (b'.get n)) (reads : List (Field × Nat))
    (value : Field → Option Double) (n : Nat) :
    ((b.deliverAll (reads.map fun p => ⟨p.2, .ok (value p.1)⟩)).get n).Tells
      ((b'.deliverAll (reads.map fun p => ⟨p.2, Answer.told (value p.1)⟩)).get n) := by
  induction reads generalizing b b' with
  | nil => exact hitems n
  | cons p rest ih =>
    refine ih fun j => ?_
    rw [Inbox.get_deliver, Inbox.get_deliver]
    exact (hitems j).deliver p.2 (value p.1)

private theorem serve_answerAll (h : Matches m e) :
    Engine.serve .answerAll e.side =
      ({ e.side with queued := [] }, m.side.pending.map fun p => ⟨p.2, Answer.told (m.side.value p.1)⟩) := by
  simp only [Engine.serve, Engine.flush_of_reads h.queued, List.map_map, Prod.mk.injEq, true_and]
  refine List.map_congr_left fun p _ => ?_
  simp only [Function.comp_apply, Delivery.map, h.told]

private theorem answerAll (h : Matches m e) :
    Matches (m.step Store.serve (.remote .answerAll)) (e.step Engine.serve (.remote .answerAll)) := by
  simp only [step, h.serve_answerAll, Store.serve, Store.resolveAll_eq]
  refine ⟨h.values, h.deferred, h.tickets, rfl, ?_, deliverAll h.items m.side.pending m.side.value⟩
  rw [Inbox.length_deliverAll, Inbox.length_deliverAll, h.asked]

private theorem step (h : Matches m e) (st : Step) : Matches (m.step Store.serve st) (e.step Engine.serve st) := by
  cases st with
  | read k => exact h.read k
  | write k v => exact h.write k v
  | poll n =>
    refine ⟨h.values, h.deferred, h.tickets, h.queued, ?_, fun j => ?_⟩
    · exact (Inbox.length_poll _ n).trans (h.asked.trans (Inbox.length_poll _ n).symm)
    · show ((m.inbox.poll n).1.get j).Tells ((e.inbox.poll n).1.get j)
      rw [Inbox.get_poll, Inbox.get_poll]
      split
      · exact (h.items j).polled
      · exact h.items j
  | drop n =>
    refine ⟨h.values, h.deferred, h.tickets, h.queued, ?_, fun j => ?_⟩
    · exact (Inbox.length_drop _ n).trans (h.asked.trans (Inbox.length_drop _ n).symm)
    · show ((m.inbox.drop n).1.get j).Tells ((e.inbox.drop n).1.get j)
      rw [Inbox.get_drop, Inbox.get_drop]
      split
      · exact .gone
      · exact h.items j
  | remote o =>
    cases o with
    | defer => exact ⟨h.values, rfl, h.tickets, h.queued, h.asked, h.items⟩
    | answerAll => exact h.answerAll

end Matches

private theorem matches_run (seed : Option Offsets) (deferred : Bool) (steps : List Step) :
    Matches (run Store.serve (.seeded seed deferred) steps) (run Engine.serve (.seeded seed deferred) steps) := by
  induction steps using List.reverseRecOn with
  | nil => exact matches_seeded seed deferred
  | append_singleton steps st ih =>
    simp only [run, List.foldl_append, List.foldl_cons, List.foldl_nil]
    exact ih.step st

/-- After the same steps the store in memory and the engine hold the same value of every field, hold back equally many
reads, and answer equally many when all are to be answered.  Each read that was ever started waits on both sides or is
gone on both, or it has its answer on both: the store's answer is a value or that there is none, and the engine's answer
is what a reply with this value decodes to. -/
theorem store_and_engine_agree (seed : Option Offsets) (deferred : Bool) (steps : List Step) :
    let m := run Store.serve (.seeded seed deferred) steps
    let e := run Engine.serve (.seeded seed deferred) steps
    (∀ k, m.side.value k = e.side.setting k.name) ∧
    m.side.pending.length = e.side.queued.length ∧
    m.side.resolveAll.2.length = e.side.flush.2.length ∧
    ∀ n, (m.inbox.poll n).2.Tells (e.inbox.poll n).2 := by
  intro m e
  have h : Matches m e := matches_run seed deferred steps
  refine ⟨h.values, ?_, ?_, fun n => ?_⟩
  · rw [h.queued, List.length_map]
  · rw [Store.resolveAll_eq, Engine.flush_of_reads h.queued, List.length_map, List.length_map]
  · rw [Inbox.poll_snd, Inbox.poll_snd]
    exact h.items n

end Client

end CameraPanel
