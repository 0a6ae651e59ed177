import CameraPanel.Proofs.TwoStores

/-!
# The order in which reads are answered

A store that defers its reads answers, for each field, the oldest read that waits.  So the answers that are given for a
field go to the reads of the field in the order in which these were started, and each read gets one answer at most.
The reads and their tickets are known from what was asked of the store (`asked`), the answers are written down as they
are given (`Client.granted`), and `Ordered` relates the two to the list of waiting reads: for each field the tickets
that were answered followed by those that wait are the tickets that were given out, and the reads that wait are the
unanswered ones in the order of their start.
-/

namespace CameraPanel

/-! ### What is done with a store -/

/-- What is done with a store and with the reads that it was asked for. -/
inductive StoreUse where
  | read (k : Field)
  | write (k : Field) (v : Double)
  | insert (k : Field) (v : Double)
  | resolve (k : Field)
  | fail (k : Field) (e : RemoteError)
  | resolveAll
  /-- Looks at a read. -/
  | poll (n : Nat)
  /-- Gives a read up. -/
  | drop (n : Nat)

namespace StoreUse

/-- The field that is read. -/
def read? : StoreUse → Option Field
  | read k => some k
  | _ => none

/-- The value that is put into the store. -/
def put? : StoreUse → Option (Field × Double)
  | write k v => some (k, v)
  | insert k v => some (k, v)
  | _ => none

/-- The reads that are started, oldest first, with their tickets; the first ticket is `first`. -/
def asked (first : Nat) (uses : List StoreUse) : List (Field × Nat) := (uses.filterMap read?).zipIdx first

/-- The value that was put in last, or the one from the start. -/
def held (values : PerField (Option Double)) (uses : List StoreUse) (k : Field) : Option Double :=
  (lastWrite (uses.filterMap put?) k).or (values.get k)

private theorem asked_concat (first : Nat) (uses : List StoreUse) (u : StoreUse) :
    asked first (uses ++ [u]) =
      asked first uses ++ u.read?.toList.map fun k => (k, first + (asked first uses).length) := by
  simp only [asked, List.filterMap_append, List.zipIdx_append, List.length_zipIdx]
  cases h : u.read? with
  | none => simp [h]
  | some k => simp [h]

private theorem asked_concat_of_none {u : StoreUse} (h : u.read? = none) (first : Nat) (uses : List StoreUse) :
    asked first (uses ++ [u]) = asked first uses := by
  rw [asked_concat, h]
  exact List.append_nil _

private theorem nodup_tickets_asked (first : Nat) (uses : List StoreUse) : ((asked first uses).map (·.2)).Nodup := by
  have htickets : (asked first uses).map (·.2) = List.range' first _ := List.zipIdx_map_snd first _
  rw [htickets]
  exact List.nodup_range'

private theorem lt_of_mem_asked {first : Nat} {uses : List StoreUse} {r : Field × Nat} (h : r ∈ asked first uses) :
    r.2 < first + (asked first uses).length := by
  rw [asked, List.length_zipIdx]
  exact List.snd_lt_add_of_mem_zipIdx h

private theorem getElem?_asked {first n : Nat} {uses : List StoreUse} {r : Field × Nat}
    (h : (asked first uses)[n]? = some r) : r.2 = first + n := by
  rw [asked, List.getElem?_zipIdx] at h
  obtain ⟨k, -, rfl⟩ := Option.map_eq_some_iff.1 h
  rfl

private theorem held_concat (values : PerField (Option Double)) (uses : List StoreUse) (u : StoreUse) (k : Field) :
    held values (uses ++ [u]) k = (lastWrite u.put?.toList k).or (held values uses k) := by
  have hput : [u].filterMap put? = u.put?.toList := by
    cases h : u.put? <;> simp [h]
  rw [held, List.filterMap_append, lastWrite_append, Option.or_assoc, hput]
  rfl

end StoreUse

/-- An answer, with the field that it was given for. -/
structure Grant where
  field : Field
  delivery : Delivery Answer

namespace Grant

def ticket (g : Grant) : Nat := g.delivery.ticket

/-- The read that the answer is for, if it is one of the field. -/
def reached (g : Grant) : Field × Nat := (g.field, g.ticket)

private theorem deliveries_mk (k : Field) (ds : List (Delivery Answer)) : (ds.map (mk k)).map (·.delivery) = ds := by
  rw [List.map_map]
  exact List.map_id ds

end Grant

namespace Store

/-- The answers that are given if one read after the other is resolved. -/
def grantsEach (s : Store) : List Field → List Grant
  | [] => []
  | k :: rest => (s.resolve k).2.toList.map (.mk k) ++ (s.resolve k).1.grantsEach rest

/-- The answers that are given, in order. -/
def grants (s : Store) : StoreUse → List Grant
  | .resolve k => (s.resolve k).2.toList.map (.mk k)
  | .fail k e => (s.fail k e).2.toList.map (.mk k)
  | .resolveAll => s.grantsEach s.pendingFields
  | _ => []

private theorem deliveries_grantsEach (s : Store) (ks : List Field) :
    (s.grantsEach ks).map (·.delivery) = (s.resolveEach ks).2 := by
  induction ks generalizing s with
  | nil => rfl
  | cons k rest ih =>
    rw [grantsEach, List.map_append, Grant.deliveries_mk, ih]
    rfl

end Store

/-! ### The tickets of a field -/

/-- The tickets of the reads of a field. -/
def ticketsOf (k : Field) (reads : List (Field × Nat)) : List Nat := (reads.filter (·.1 = k)).map (·.2)

private theorem ticketsOf_append (k : Field) (reads later : List (Field × Nat)) :
    ticketsOf k (reads ++ later) = ticketsOf k reads ++ ticketsOf k later := by
  simp [ticketsOf]

private theorem mem_ticketsOf {k : Field} {reads : List (Field × Nat)} {t : Nat} :
    t ∈ ticketsOf k reads ↔ (k, t) ∈ reads := by
  simp [ticketsOf]

private theorem Store.oldest?_eq_none_iff {k : Field} {pending : List (Field × Nat)} :
    oldest? k pending = none ↔ ∀ e ∈ pending, e.1 ≠ k := by
  induction pending with
  | nil => simp [oldest?]
  | cons e rest ih =>
    obtain ⟨j, t⟩ := e
    rw [oldest?]
    by_cases hj : j = k
    · simp [hj]
    · simp only [if_neg hj, Option.map_eq_none_iff, ih, List.forall_mem_cons]
      exact (and_iff_right hj).symm

/-- The read that is answered has the first of the tickets of its field. -/
private theorem Store.ticketsOf_oldest? {k : Field} {pending others : List (Field × Nat)} {ticket : Nat}
    (h : oldest? k pending = some (ticket, others)) (j : Field) :
    ticketsOf j pending = ticketsOf j [(k, ticket)] ++ ticketsOf j others := by
  obtain ⟨front, back, rfl, rfl, hfront⟩ := oldest?_eq_some h
  have hcons : (k, ticket) :: back = [(k, ticket)] ++ back := rfl
  rw [hcons, ticketsOf_append, ticketsOf_append, ticketsOf_append]
  by_cases hj : j = k
  · subst hj
    have hnone : ticketsOf j front = [] := by simpa [ticketsOf] using hfront
    rw [hnone]
    rfl
  · have hnone : ticketsOf j [(k, ticket)] = [] := by simp [ticketsOf, Ne.symm hj]
    rw [hnone]
    rfl

private theorem Store.others_eq_filter {k : Field} {pending others : List (Field × Nat)} {ticket : Nat}
    (h : oldest? k pending = some (ticket, others)) (hnodup : (pending.map (·.2)).Nodup) :
    others = pending.filter (·.2 ≠ ticket) := by
  obtain ⟨front, back, rfl, rfl, -⟩ := oldest?_eq_some h
  rw [List.map_append, List.map_cons, List.nodup_append] at hnodup
  obtain ⟨-, hback, hdisjoint⟩ := hnodup
  have hfront : front.filter (·.2 ≠ ticket) = front := by
    rw [List.filter_eq_self]
    intro e he
    simpa using hdisjoint e.2 (List.mem_map_of_mem he) ticket (List.mem_cons_self ..)
  have hrest : back.filter (·.2 ≠ ticket) = back := by
    rw [List.filter_eq_self]
    intro e he
    have hmem : e.2 ∈ back.map (·.2) := List.mem_map_of_mem he
    have hne : e.2 ≠ ticket := fun heq => (List.nodup_cons.1 hback).1 (heq ▸ hmem)
    simpa using hne
  rw [List.filter_append, List.filter_cons_of_neg (by simp), hfront, hrest]

/-! ### Answers in order -/

/-- The answers went to the reads of their fields in order, and the reads that wait are the ones without an answer. -/
structure Ordered (asked : List (Field × Nat)) (granted : List Grant) (pending : List (Field × Nat)) : Prop where
  split : ∀ k, ticketsOf k (granted.map Grant.reached) ++ ticketsOf k pending = ticketsOf k asked
  once : (granted.map Grant.ticket).Nodup
  unanswered : pending = asked.filter fun r => r.2 ∉ granted.map Grant.ticket

namespace Ordered

variable {asked pending : List (Field × Nat)} {granted : List Grant}

private theorem mem_asked (h : Ordered asked granted pending) {g : Grant} (hg : g ∈ granted) : g.reached ∈ asked := by
  have hmem : g.ticket ∈ ticketsOf g.field (granted.map Grant.reached) :=
    mem_ticketsOf.2 (List.mem_map_of_mem hg)
  exact mem_ticketsOf.1 (h.split g.field ▸ List.mem_append_left _ hmem)

/-- A new read with a ticket above all others. -/
private theorem read (h : Ordered asked granted pending) {k : Field} {ticket : Nat} (hlt : ∀ r ∈ asked, r.2 < ticket) :
    Ordered (asked ++ [(k, ticket)]) granted (pending ++ [(k, ticket)]) := by
  refine ⟨fun j => ?_, h.once, ?_⟩
  · rw [ticketsOf_append, ticketsOf_append, ← List.append_assoc, h.split]
  · have hnew : ticket ∉ granted.map Grant.ticket := by
      intro hmem
      obtain ⟨g, hg, rfl⟩ := List.mem_map.1 hmem
      exact (hlt _ (h.mem_asked hg)).false
    rw [List.filter_append, ← h.unanswered, List.filter_singleton]
    simp [hnew]

private theorem answer {s : Store} (h : Ordered asked granted s.pending) (hnodup : (asked.map (·.2)).Nodup) (k : Field)
    (a : Answer) :
    Ordered asked (granted ++ (s.answer k a).2.toList.map (.mk k)) (s.answer k a).1.pending := by
  unfold Store.answer
  rcases hold : Store.oldest? k s.pending with _ | ⟨ticket, others⟩
  · simpa using h
  · have hpending : (s.pending.map (·.2)).Nodup := by
      rw [h.unanswered]
      exact hnodup.sublist (List.filter_sublist.map _)
    have htickets : (granted ++ [Grant.mk k ⟨ticket, a⟩]).map Grant.ticket = granted.map Grant.ticket ++ [ticket] :=
      List.map_append
    refine ⟨fun j => ?_, ?_, ?_⟩
    · have hsplit := h.split j
      rw [Store.ticketsOf_oldest? hold, ← List.append_assoc, ← ticketsOf_append] at hsplit
      rw [List.map_append]
      exact hsplit
    · -- The read waited, so its ticket was not answered before.
      obtain ⟨front, back, hsplit, -, -⟩ := Store.oldest?_eq_some hold
      have hmem : (k, ticket) ∈ s.pending := hsplit ▸ List.mem_append_right _ (List.mem_cons_self ..)
      rw [h.unanswered] at hmem
      have hnew : ticket ∉ granted.map Grant.ticket := of_decide_eq_true (List.mem_filter.1 hmem).2
      show ((granted ++ [Grant.mk k ⟨ticket, a⟩]).map Grant.ticket).Nodup
      rw [htickets, ← List.concat_eq_append]
      exact h.once.concat hnew
    · show others = asked.filter fun r => r.2 ∉ (granted ++ [Grant.mk k ⟨ticket, a⟩]).map Grant.ticket
      rw [Store.others_eq_filter hold hpending, h.unanswered, List.filter_filter, htickets]
      refine List.filter_congr fun r _ => ?_
      simp [and_comm]

private theorem resolveEach {s : Store} (h : Ordered asked granted s.pending) (hnodup : (asked.map (·.2)).Nodup)
    (ks : List Field) : Ordered asked (granted ++ s.grantsEach ks) (s.resolveEach ks).1.pending := by
  induction ks generalizing s granted with
  | nil => simpa [Store.grantsEach, Store.resolveEach] using h
  | cons k rest ih =>
    rw [Store.grantsEach, ← List.append_assoc]
    exact ih (h.answer hnodup k _)

end Ordered

/-! ### What the reader sees -/

/-- What a read shows that was answered as it is written down, or not at all. -/
def shown (granted : List Grant) (ticket : Nat) : Inbox.Item Answer :=
  match granted.find? (·.ticket = ticket) with
  | some g => .ready g.delivery.answer
  | none => .waiting ticket

private theorem shown_deliver (granted : List Grant) (g : Grant) (ticket : Nat) :
    (shown granted ticket).deliver g.delivery = shown (granted ++ [g]) ticket := by
  unfold shown
  rw [List.find?_append]
  cases granted.find? (·.ticket = ticket) with
  | some g' => rfl
  | none =>
    by_cases hg : g.ticket = ticket
    · have hg' : ticket = g.delivery.ticket := hg.symm
      simp [hg, Inbox.Item.deliver, if_pos hg']
    · have hg' : ticket ≠ g.delivery.ticket := Ne.symm hg
      simp [hg, Inbox.Item.deliver, if_neg hg']

private theorem get_deliverAll_shown {b : Inbox Answer} {granted : List Grant} {n ticket : Nat}
    (h : b.get n = shown granted ticket) (gs : List Grant) :
    (b.deliverAll (gs.map (·.delivery))).get n = shown (granted ++ gs) ticket := by
  induction gs generalizing b granted with
  | nil =>
    rw [List.append_nil]
    exact h
  | cons g rest ih =>
    have hfirst : (b.deliver g.delivery).get n = shown (granted ++ [g]) ticket := by
      rw [Inbox.get_deliver, h, shown_deliver]
    have hrest := ih hfirst
    rw [List.append_assoc] at hrest
    exact hrest

private theorem get_deliverAll_gone {b : Inbox Answer} {n : Nat} (h : b.get n = .gone) (ds : List (Delivery Answer)) :
    (b.deliverAll ds).get n = .gone := by
  induction ds generalizing b with
  | nil => exact h
  | cons d rest ih =>
    apply ih
    rw [Inbox.get_deliver, h]
    rfl

private theorem shown_of_not_mem {granted : List Grant} {ticket : Nat} (h : ticket ∉ granted.map Grant.ticket) :
    shown granted ticket = .waiting ticket := by
  have hfind : granted.find? (·.ticket = ticket) = none := by
    rw [List.find?_eq_none]
    intro g hg heq
    exact h (of_decide_eq_true heq ▸ List.mem_map_of_mem hg)
  rw [shown, hfind]

private theorem exists_shown_of_mem {granted : List Grant} {ticket : Nat} (h : ticket ∈ granted.map Grant.ticket) :
    ∃ a, shown granted ticket = .ready a := by
  obtain ⟨g, hg, rfl⟩ := List.mem_map.1 h
  cases hfind : granted.find? (·.ticket = g.ticket) with
  | some g' => exact ⟨g'.delivery.answer, by rw [shown, hfind]⟩
  | none => exact absurd (List.find?_eq_none.1 hfind g hg) (by simp)

/-- A read shows what is written down for its ticket as long as nobody has let it go, and then it is gone. -/
def Shows (item : Inbox.Item Answer) (granted : List Grant) (ticket : Nat) (letGo : Prop) : Prop :=
  (letGo → item = .gone) ∧ (¬ letGo → item = shown granted ticket)

private theorem Shows.deliverAll {b : Inbox Answer} {granted : List Grant} {n ticket : Nat} {letGo : Prop}
    (h : Shows (b.get n) granted ticket letGo) (gs : List Grant) :
    Shows ((b.deliverAll (gs.map (·.delivery))).get n) (granted ++ gs) ticket letGo :=
  ⟨fun hgo => get_deliverAll_gone (h.1 hgo) _, fun hgo => get_deliverAll_shown (h.2 hgo) gs⟩

/-- Whoever looks at a read lets it go if it has its answer. -/
private theorem Shows.polled {item : Inbox.Item Answer} {granted : List Grant} {ticket : Nat} {letGo : Prop}
    (h : Shows item granted ticket letGo) :
    Shows item.polled granted ticket (letGo ∨ ticket ∈ granted.map Grant.ticket) := by
  by_cases hgo : letGo
  · rw [h.1 hgo]
    exact ⟨fun _ => rfl, fun hnot => absurd (.inl hgo) hnot⟩
  · rw [h.2 hgo]
    by_cases hmem : ticket ∈ granted.map Grant.ticket
    · obtain ⟨a, ha⟩ := exists_shown_of_mem hmem
      rw [ha]
      exact ⟨fun _ => rfl, fun hnot => absurd (.inr hmem) hnot⟩
    · have hwaits := shown_of_not_mem hmem
      rw [hwaits]
      exact ⟨fun hor => absurd hor (by simp [hgo, hmem]), fun _ => hwaits.symm⟩

/-! ### Runs -/

namespace Client

/-- Somebody who asked a store that defers its reads for nothing yet. -/
def deferring (values : PerField (Option Double)) (writes : List (Field × Double)) (first : Nat) : Client Store :=
  ⟨⟨values, writes, first, true, []⟩, .empty⟩

def use (c : Client Store) : StoreUse → Client Store
  | .read k => ⟨(c.side.read k).value.1, (c.inbox.add (c.side.read k).value.2).1⟩
  | .write k v => { c with side := (c.side.write k v).value }
  | .insert k v => { c with side := c.side.insert k v }
  | .resolve k => ⟨(c.side.resolve k).1, c.inbox.deliverAll (c.side.resolve k).2.toList⟩
  | .fail k e => ⟨(c.side.fail k e).1, c.inbox.deliverAll (c.side.fail k e).2.toList⟩
  | .resolveAll => ⟨c.side.resolveAll.1, c.inbox.deliverAll c.side.resolveAll.2⟩
  | .poll n => { c with inbox := (c.inbox.poll n).1 }
  | .drop n => { c with inbox := (c.inbox.drop n).1 }

def useAll (c : Client Store) (uses : List StoreUse) : Client Store := uses.foldl use c

/-- The answers that are given meanwhile, in order. -/
def granted (c : Client Store) : List StoreUse → List Grant
  | [] => []
  | u :: rest => c.side.grants u ++ (c.use u).granted rest

/-- Nobody waits for read `n` any more: it was given up, or it was looked at when it had its answer. -/
def LetGo (c : Client Store) (uses : List StoreUse) (n : Nat) : Prop :=
  ∃ before u after, uses = before ++ u :: after ∧ n < (StoreUse.asked c.side.reads before).length ∧
    (u = .drop n ∨ u = .poll n ∧ c.side.reads + n ∈ (c.granted before).map Grant.ticket)

private theorem useAll_concat (c : Client Store) (uses : List StoreUse) (u : StoreUse) :
    c.useAll (uses ++ [u]) = (c.useAll uses).use u := List.foldl_concat ..

private theorem granted_concat (c : Client Store) (uses : List StoreUse) (u : StoreUse) :
    c.granted (uses ++ [u]) = c.granted uses ++ (c.useAll uses).side.grants u := by
  induction uses generalizing c with
  | nil => exact List.append_nil _
  | cons v rest ih =>
    rw [List.cons_append, granted, ih, granted, List.append_assoc]
    rfl

private theorem letGo_concat {c : Client Store} {uses : List StoreUse} {u : StoreUse} {n : Nat} :
    c.LetGo (uses ++ [u]) n ↔ c.LetGo uses n ∨ n < (StoreUse.asked c.side.reads uses).length ∧
      (u = .drop n ∨ u = .poll n ∧ c.side.reads + n ∈ (c.granted uses).map Grant.ticket) := by
  constructor
  · rintro ⟨before, v, after, heq, hlt, hv⟩
    rcases List.eq_nil_or_concat after with rfl | ⟨after, w, rfl⟩
    · obtain ⟨rfl, hlast⟩ := List.append_inj' heq rfl
      obtain rfl := List.singleton_inj.1 hlast
      exact .inr ⟨hlt, hv⟩
    · rw [List.concat_eq_append, ← List.cons_append, ← List.append_assoc] at heq
      obtain ⟨rfl, -⟩ := List.append_inj' heq rfl
      exact .inl ⟨before, v, after, rfl, hlt, hv⟩
  · rintro (⟨before, v, after, rfl, hlt, hv⟩ | ⟨hlt, hu⟩)
    · exact ⟨before, v, after ++ [u], by simp, hlt, hv⟩
    · exact ⟨uses, u, [], rfl, hlt, hu⟩

private theorem letGo_concat_of_lt {c : Client Store} {uses : List StoreUse} {u : StoreUse} {n : Nat}
    (h : n < (StoreUse.asked c.side.reads uses).length) :
    c.LetGo (uses ++ [u]) n ↔ c.LetGo uses n ∨ u = .drop n ∨
      u = .poll n ∧ c.side.reads + n ∈ (c.granted uses).map Grant.ticket :=
  letGo_concat.trans (or_congr_right (and_iff_right h))

private theorem LetGo.lt {c : Client Store} {uses : List StoreUse} {n : Nat} (h : c.LetGo uses n) :
    n < (StoreUse.asked c.side.reads uses).length := by
  induction uses using List.reverseRecOn with
  | nil => simp [LetGo] at h
  | append_singleton uses u ih =>
    rw [StoreUse.asked_concat, List.length_append]
    rcases letGo_concat.1 h with h | ⟨h, -⟩
    · exact Nat.lt_add_right _ (ih h)
    · exact Nat.lt_add_right _ h

end Client

namespace Store

/-- There is somebody to answer exactly if a read of the field waits. -/
private theorem isSome_answer {s : Store} {k : Field} {a : Answer} :
    (s.answer k a).2.isSome = true ↔ ∃ r ∈ s.pending, r.1 = k := by
  unfold answer
  rcases hold : oldest? k s.pending with _ | ⟨ticket, others⟩
  · simp only [Option.isSome_none, Bool.false_eq_true, false_iff, not_exists, not_and]
    exact oldest?_eq_none_iff.1 hold
  · obtain ⟨front, back, hpending, -, -⟩ := oldest?_eq_some hold
    simp only [Option.isSome_some, true_iff]
    exact ⟨(k, ticket), by simp [hpending], rfl⟩

private theorem answer_eq_some {s : Store} {k : Field} {a : Answer} {d : Delivery Answer}
    (h : (s.answer k a).2 = some d) :
    d.answer = a := by
  unfold answer at h
  split at h
  · rw [← Option.some.inj h]
  · cases h

private theorem answer_fst (s : Store) (k : Field) (a : Answer) :
    (s.answer k a).1 = { s with pending := (s.answer k a).1.pending } := by
  unfold answer
  split <;> rfl

private theorem resolveEach_fst (s : Store) (ks : List Field) :
    (s.resolveEach ks).1 = { s with pending := (s.resolveEach ks).1.pending } := by
  induction ks generalizing s with
  | nil => rfl
  | cons k rest ih =>
    have hresolve : (s.resolve k).1 = { s with pending := (s.resolve k).1.pending } := s.answer_fst k _
    show ((s.resolve k).1.resolveEach rest).1 = { s with pending := ((s.resolve k).1.resolveEach rest).1.pending }
    rw [ih, hresolve]

end Store

/-- The store has done what it was asked, with the answers that are written down. -/
structure Store.Follows (s : Store) (values : PerField (Option Double)) (first : Nat) (uses : List StoreUse)
    (granted : List Grant) : Prop where
  deferred : s.deferred = true
  reads : s.reads = first + (StoreUse.asked first uses).length
  value : ∀ k, s.value k = StoreUse.held values uses k
  ordered : Ordered (StoreUse.asked first uses) granted s.pending

namespace Store.Follows

variable {s : Store} {values : PerField (Option Double)} {first : Nat} {uses : List StoreUse} {granted : List Grant}

/-- An answer changes nothing but the list of waiting reads. -/
private theorem answered (h : s.Follows values first uses granted) {u : StoreUse} (hread : u.read? = none)
    (hput : u.put? = none) {s' : Store} (hs' : s' = { s with pending := s'.pending })
    (hordered : Ordered (StoreUse.asked first uses) (granted ++ s.grants u) s'.pending) :
    s'.Follows values first (uses ++ [u]) (granted ++ s.grants u) := by
  have hasked := StoreUse.asked_concat_of_none hread first uses
  refine ⟨?_, ?_, fun k => ?_, ?_⟩
  · rw [hs']
    exact h.deferred
  · rw [hs', hasked]
    exact h.reads
  · rw [StoreUse.held_concat, hput, hs']
    exact h.value k
  · rw [hasked]
    exact hordered

private theorem read (h : s.Follows values first uses granted) (k : Field) :
    (s.read k).value.1.Follows values first (uses ++ [.read k]) (granted ++ s.grants (.read k)) := by
  have hasked : StoreUse.asked first (uses ++ [.read k]) = StoreUse.asked first uses ++ [(k, s.reads)] := by
    rw [StoreUse.asked_concat, h.reads]
    rfl
  rw [Store.read_of_deferred h.deferred]
  refine ⟨h.deferred, ?_, fun j => ?_, ?_⟩
  · rw [hasked, List.length_append, ← Nat.add_assoc, ← h.reads]
    rfl
  · rw [StoreUse.held_concat]
    exact h.value j
  · have hgrants : granted ++ s.grants (.read k) = granted := List.append_nil _
    have hlt : ∀ r ∈ StoreUse.asked first uses, r.2 < s.reads := fun r hr => h.reads ▸ StoreUse.lt_of_mem_asked hr
    rw [hasked, hgrants]
    exact h.ordered.read hlt

/-- A value that is put in is the one that is held, and the other fields keep theirs. -/
private theorem put (h : s.Follows values first uses granted) {u : StoreUse} {k : Field} {v : Double}
    (hread : u.read? = none)
    (hput : u.put? = some (k, v)) (hgrants : s.grants u = []) {writes : List (Field × Double)} :
    Store.Follows { s.insert k v with writes } values first (uses ++ [u]) (granted ++ s.grants u) := by
  have hasked := StoreUse.asked_concat_of_none hread first uses
  refine ⟨h.deferred, ?_, fun j => ?_, ?_⟩
  · rw [hasked]
    exact h.reads
  · rw [StoreUse.held_concat, hput, ← h.value]
    show (s.values.set k (some v)).get j = (lastWrite [(k, v)] j).or (s.values.get j)
    by_cases hj : j = k
    · subst hj
      simp [lastWrite]
    · have hother : lastWrite [(k, v)] j = none := by simp [lastWrite, List.lookup_cons, beq_eq_false_iff_ne.2 hj]
      rw [PerField.get_set_of_ne _ _ hj, hother, Option.none_or]
  · rw [hasked, hgrants, List.append_nil]
    exact h.ordered

private theorem use {c : Client Store} (h : c.side.Follows values first uses granted) (u : StoreUse) :
    (c.use u).side.Follows values first (uses ++ [u]) (granted ++ c.side.grants u) := by
  have hnodup := StoreUse.nodup_tickets_asked first uses
  have hnone : Ordered (StoreUse.asked first uses) (granted ++ []) c.side.pending := by
    rw [List.append_nil]
    exact h.ordered
  cases u with
  | read k => exact h.read k
  | write k v => exact h.put rfl rfl rfl
  | insert k v => exact h.put rfl rfl rfl
  | resolve k => exact h.answered rfl rfl (c.side.answer_fst k _) (h.ordered.answer hnodup k _)
  | fail k e => exact h.answered rfl rfl (c.side.answer_fst k _) (h.ordered.answer hnodup k _)
  | resolveAll => exact h.answered rfl rfl (c.side.resolveEach_fst _) (h.ordered.resolveEach hnodup _)
  | poll n => exact h.answered rfl rfl rfl hnone
  | drop n => exact h.answered rfl rfl rfl hnone

end Store.Follows

namespace Client

variable (values : PerField (Option Double)) (writes : List (Field × Double)) (first : Nat)

private theorem follows_useAll (uses : List StoreUse) :
    ((deferring values writes first).useAll uses).side.Follows values first uses
      ((deferring values writes first).granted uses) := by
  induction uses using List.reverseRecOn with
  | nil => exact ⟨rfl, rfl, fun k => rfl, fun k => rfl, List.nodup_nil, rfl⟩
  | append_singleton uses u ih =>
    rw [useAll_concat, granted_concat]
    exact ih.use u

private theorem length_inbox_useAll (uses : List StoreUse) :
    ((deferring values writes first).useAll uses).inbox.items.length = (StoreUse.asked first uses).length := by
  induction uses using List.reverseRecOn with
  | nil => rfl
  | append_singleton uses u ih =>
    rw [useAll_concat, StoreUse.asked_concat, List.length_append, ← ih]
    cases u with
    | read k => exact Inbox.length_add _ _
    | resolve k => exact Inbox.length_deliverAll _ _
    | fail k e => exact Inbox.length_deliverAll _ _
    | resolveAll => exact Inbox.length_deliverAll _ _
    | poll n => exact Inbox.length_poll _ n
    | drop n => exact Inbox.length_drop _ n
    | _ => rfl

/-- What a read that was started before a use shows after it. -/
private theorem shows_use {c : Client Store} {granted : List Grant} {ticket n : Nat} {letGo : Prop}
    (h : Shows (c.inbox.get n) granted ticket letGo) (hn : n < c.inbox.items.length) (u : StoreUse) :
    Shows ((c.use u).inbox.get n) (granted ++ c.side.grants u) ticket
      (letGo ∨ u = .drop n ∨ u = .poll n ∧ ticket ∈ granted.map Grant.ticket) := by
  have hsame : Shows (c.inbox.get n) (granted ++ []) ticket letGo := by
    rw [List.append_nil]
    exact h
  cases u with
  | read k =>
    simp only [use, Inbox.get_add, hn.ne, if_false, reduceCtorEq, false_and, or_false]
    exact hsame
  | write k v =>
    simp only [reduceCtorEq, false_and, or_false]
    exact hsame
  | insert k v =>
    simp only [reduceCtorEq, false_and, or_false]
    exact hsame
  | resolve k =>
    have hdeliver := h.deliverAll (c.side.grants (.resolve k))
    rw [Store.grants, Grant.deliveries_mk] at hdeliver
    simp only [reduceCtorEq, false_and, or_false]
    exact hdeliver
  | fail k e =>
    have hdeliver := h.deliverAll (c.side.grants (.fail k e))
    rw [Store.grants, Grant.deliveries_mk] at hdeliver
    simp only [reduceCtorEq, false_and, or_false]
    exact hdeliver
  | resolveAll =>
    have hdeliver := h.deliverAll (c.side.grants .resolveAll)
    rw [Store.grants, Store.deliveries_grantsEach] at hdeliver
    simp only [reduceCtorEq, false_and, or_false]
    exact hdeliver
  | poll m =>
    simp only [use, Inbox.get_poll, reduceCtorEq, false_or, StoreUse.poll.injEq]
    by_cases hm : n = m
    · subst hm
      simpa [Store.grants] using h.polled
    · simpa [hm, Ne.symm hm, Store.grants] using h
  | drop m =>
    simp only [use, Inbox.get_drop, reduceCtorEq, false_and, or_false, StoreUse.drop.injEq]
    by_cases hm : n = m
    · simp [hm, Shows]
    · simpa [hm, Ne.symm hm, Store.grants] using h

/-- A read that was started just now waits, and nobody has let it go. -/
private theorem shows_read (uses : List StoreUse) (k : Field) {n : Nat} (hn : n = (StoreUse.asked first uses).length) :
    Shows ((((deferring values writes first).useAll uses).use (.read k)).inbox.get n)
      ((deferring values writes first).granted uses) (first + n)
      ((deferring values writes first).LetGo (uses ++ [.read k]) n) := by
  have hfollows := follows_useAll values writes first uses
  have hlength := length_inbox_useAll values writes first uses
  have hold : ¬ n < (StoreUse.asked first uses).length := hn.ge.not_gt
  have hkept : ¬ (deferring values writes first).LetGo (uses ++ [.read k]) n := by
    rw [letGo_concat]
    rintro (hgo | ⟨hlt, -⟩)
    · exact hold hgo.lt
    · exact hold hlt
  have hticket : first + n ∉ ((deferring values writes first).granted uses).map Grant.ticket := by
    intro hmem
    obtain ⟨g, hg, hgn⟩ := List.mem_map.1 hmem
    have hlt : g.ticket < _ := StoreUse.lt_of_mem_asked (hfollows.ordered.mem_asked hg)
    omega
  refine ⟨fun hgo => absurd hgo hkept, fun _ => ?_⟩
  rw [shown_of_not_mem hticket]
  subst hn
  simp only [use, Store.read_of_deferred hfollows.deferred, Inbox.get_add, hlength, if_true, hfollows.reads]
  rfl

/-- A read that somebody still waits for shows the answer that is written down for it; any other is gone. -/
private theorem shows_useAll (uses : List StoreUse) {n : Nat} (hn : n < (StoreUse.asked first uses).length) :
    Shows (((deferring values writes first).useAll uses).inbox.get n) ((deferring values writes first).granted uses)
      (first + n) ((deferring values writes first).LetGo uses n) := by
  induction uses using List.reverseRecOn with
  | nil => exact absurd hn (Nat.not_lt_zero n)
  | append_singleton uses u ih =>
    have hlength := length_inbox_useAll values writes first uses
    rw [useAll_concat, granted_concat]
    by_cases hold : n < (StoreUse.asked first uses).length
    · rw [letGo_concat_of_lt hold]
      exact shows_use (ih hold) (hlength ▸ hold) u
    · rw [StoreUse.asked_concat, List.length_append, List.length_map] at hn
      cases u with
      | read k =>
        have hlast : n = (StoreUse.asked first uses).length :=
          Nat.le_antisymm (Nat.lt_succ_iff.1 hn) (Nat.not_lt.1 hold)
        have hshows := shows_read values writes first uses k hlast
        rw [← List.append_nil ((deferring values writes first).granted uses)] at hshows
        exact hshows
      | _ => exact absurd hn hold

/-- In every use of a store that defers its reads, the answers that are given for a field go to the reads of the field
in the order of their start, and no read gets two.  A read shows the answer that was given to it, and no other, until
somebody takes the answer or gives the read up.  The reads that wait are the unanswered ones in the order of their
start.  To resolve or to fail a read of a field does something exactly if one of them is of the field, and to resolve
all reads answers all of them.  A read that is resolved hears the value that is held at that moment. -/
theorem reads_answered_in_order (uses : List StoreUse) :
    let start := deferring values writes first
    let c := start.useAll uses
    let asked := StoreUse.asked first uses
    let granted := start.granted uses
    let unanswered := asked.filter fun r => r.2 ∉ granted.map Grant.ticket
    (∀ k, ticketsOf k (granted.map Grant.reached) <+: ticketsOf k asked) ∧
    (granted.map Grant.ticket).Nodup ∧
    (∀ n r, asked[n]? = some r → Shows (c.inbox.get n) granted r.2 (start.LetGo uses n)) ∧
    c.side.pendingFields = unanswered.map (·.1) ∧
    (∀ k, ((c.side.resolve k).2.isSome = true ↔ ∃ r ∈ unanswered, r.1 = k) ∧
      ∀ d, (c.side.resolve k).2 = some d → d.answer = .ok (StoreUse.held values uses k)) ∧
    (∀ k e, ((c.side.fail k e).2.isSome = true ↔ ∃ r ∈ unanswered, r.1 = k) ∧
      ∀ d, (c.side.fail k e).2 = some d → d.answer = .error e) ∧
    c.side.resolveAll.2 = unanswered.map (fun r => ⟨r.2, .ok (StoreUse.held values uses r.1)⟩) ∧
    c.side.resolveAll.1.pendingFields = [] := by
  intro start c asked granted unanswered
  have h : c.side.Follows values first uses granted := follows_useAll values writes first uses
  have hpending : c.side.pending = unanswered := h.ordered.unanswered
  refine ⟨fun k => ⟨_, h.ordered.split k⟩, h.ordered.once, ?_, ?_, fun k => ⟨?_, ?_⟩, fun k e => ⟨?_, ?_⟩, ?_, ?_⟩
  · intro n r hr
    obtain ⟨hn, -⟩ := List.getElem?_eq_some_iff.1 hr
    rw [StoreUse.getElem?_asked hr]
    exact shows_useAll values writes first uses hn
  · rw [Store.pendingFields, hpending]
  · rw [← hpending]
    exact Store.isSome_answer
  · intro d hd
    rw [Store.answer_eq_some hd, h.value]
  · rw [← hpending]
    exact Store.isSome_answer
  · intro d hd
    exact Store.answer_eq_some hd
  · rw [Store.resolveAll_eq, hpending]
    simp only [h.value]
  · rw [Store.resolveAll_eq]
    rfl

-- The first read of the field was given up, and still takes the first answer.
example :
    let c := (deferring (.fill none) [] 0).useAll [.read .posX, .read .posX, .drop 0, .insert .posX (.infinity true),
      .resolve .posX, .insert .posX .nan, .resolveAll]
    c.inbox.get 0 = .gone ∧ c.inbox.get 1 = .ready (.ok (some .nan)) := by
  decide

end Client

end CameraPanel
