import CameraPanel.Proofs.HostHistory
import CameraPanel.Proofs.ReplyNumbers
import CameraPanel.Proofs.TwoStores

/-!
# What a read hears after a write

An engine may be made to run or to hold back any chunks, and be flushed at any time.  Whatever happens, the chunks that
it runs form one sequence, each run on the table that the ones before it left (`runs_trace`).  A read is one of them,
found by its ticket, which no other chunk ever gets (`Reserved`).  So a read hears the latest write of its field among
the chunks that ran before it, as a reply tells of it (`read_after_write`).
-/

namespace CameraPanel.Engine

/-- What may happen to an engine. -/
inductive Act where
  | execute (chunk : String)
  | send (chunk : String)
  | flush
  | defer
deriving DecidableEq

/-- A chunk that was run, with the ticket of the one who waits for the reply, if anybody does, and the reply. -/
structure Ran where
  chunk : String
  ticket : Option Nat
  reply : ChunkReply

/-- The engine after something happened. -/
def act (e : Engine) : Act → Engine
  | .execute chunk => (e.execute chunk).1
  | .send chunk => (e.send chunk).value
  | .flush => e.flush.1
  | .defer => e.defer

/-- The chunks that run when something happens, in order. -/
def ran (e : Engine) : Act → List Ran
  | .execute chunk =>
    match (e.execute chunk).2 with
    | .now reply => [⟨chunk, some e.nextTicket, reply⟩]
    | .later _ => []
  | .send chunk => [⟨chunk, none, (run e.settings chunk).2⟩]
  | .flush => List.zipWith (fun q d => ⟨q.1, some d.ticket, d.answer⟩) e.queued e.flush.2
  | .defer => []

/-- The engine after several things happened. -/
def play (e : Engine) (acts : List Act) : Engine := acts.foldl act e

/-- All chunks that run meanwhile, in order. -/
def trace (e : Engine) : List Act → List Ran
  | [] => []
  | a :: acts => e.ran a ++ (e.act a).trace acts

/-! ### Chunks in order -/

/-- The chunks ran one after the other, and led from one table to another. -/
inductive Runs : SettingTable → List Ran → SettingTable → Prop
  | nil (t : SettingTable) : Runs t [] t
  | cons {t t' : SettingTable} {r : Ran} {rs : List Ran} (hreply : r.reply = (run t r.chunk).2)
      (hrest : Runs (run t r.chunk).1 rs t') : Runs t (r :: rs) t'

private theorem Runs.append {t t' t'' : SettingTable} {rs rs' : List Ran} (h : Runs t rs t') (h' : Runs t' rs' t'') :
    Runs t (rs ++ rs') t'' := by
  induction h with
  | nil t => exact h'
  | cons hreply _ ih => exact .cons hreply (ih h')

private theorem Runs.reply_eq {t t' : SettingTable} {rs later : List Ran} {r : Ran} (h : Runs t (rs ++ r :: later) t') :
    ∃ t₁, Runs t rs t₁ ∧ r.reply = (run t₁ r.chunk).2 := by
  induction rs generalizing t with
  | nil =>
    cases h with
    | cons hreply _ => exact ⟨t, .nil t, hreply⟩
  | cons r' rs ih =>
    cases h with
    | cons hreply hrest =>
      obtain ⟨t₁, hrs, hr⟩ := ih hrest
      exact ⟨t₁, .cons hreply hrs, hr⟩

private theorem get?_run {name chunk : String} (h : setBy? name chunk = none) (t : SettingTable) :
    (run t chunk).1.get? name = t.get? name := by
  unfold setBy? at h
  unfold run
  split
  · rfl
  · rename_i key v hparse
    simp only [hparse] at h
    split at h
    · cases h
    · rename_i hkey
      exact SettingTable.get?_insert_of_ne _ _ (Ne.symm hkey)
  · rfl

private theorem Runs.get?_eq {t t' : SettingTable} {rs : List Ran} (h : Runs t rs t') {name : String}
    (hrs : ∀ r ∈ rs, setBy? name r.chunk = none) : t'.get? name = t.get? name := by
  induction h with
  | nil t => rfl
  | cons _ _ ih =>
    obtain ⟨hr, hrest⟩ := List.forall_mem_cons.1 hrs
    rw [ih hrest, get?_run hr]

private theorem runs_runQueued (t : SettingTable) (queued : List (String × Nat)) :
    Runs t (List.zipWith (fun q d => ⟨q.1, some d.ticket, d.answer⟩) queued (runQueued t queued).2)
      (runQueued t queued).1 := by
  induction queued generalizing t with
  | nil => exact .nil t
  | cons q rest ih => exact .cons rfl (ih _)

private theorem settings_send (e : Engine) (chunk : String) :
    (e.send chunk).value.settings = (run e.settings chunk).1 := by
  unfold send
  simp only
  split <;> rename_i hrun <;> rw [hrun] <;> rfl

private theorem runs_ran (e : Engine) (a : Act) : Runs e.settings (e.ran a) (e.act a).settings := by
  cases a with
  | execute chunk =>
    cases hdeferred : e.deferred with
    | true =>
      simp only [ran, act, execute, hdeferred, if_true]
      exact .nil _
    | false =>
      simp only [ran, act, execute, hdeferred, Bool.false_eq_true, if_false]
      exact .cons rfl (.nil _)
  | send chunk =>
    rw [act, settings_send]
    exact .cons rfl (.nil _)
  | flush => exact runs_runQueued e.settings e.queued
  | defer => exact .nil _

/-- All chunks of a run, held back or not, ran one after the other. -/
private theorem runs_trace (e : Engine) (acts : List Act) : Runs e.settings (e.trace acts) (e.play acts).settings := by
  induction acts generalizing e with
  | nil => exact .nil _
  | cons a acts ih => exact (runs_ran e a).append (ih (e.act a))

/-! ### Tickets -/

private theorem map_ran_flush (e : Engine) :
    (e.ran .flush).map (fun r => (r.chunk, r.ticket)) = e.queued.map fun q => (q.1, some q.2) := by
  have hqueued : ∀ (t : SettingTable) (queued : List (String × Nat)),
      (List.zipWith (fun q d => ⟨q.1, some d.ticket, d.answer⟩) queued (runQueued t queued).2).map
        (fun r : Ran => (r.chunk, r.ticket)) = queued.map fun q => (q.1, some q.2) := by
    intro t queued
    induction queued generalizing t with
    | nil => rfl
    | cons q rest ih => exact congrArg _ (ih _)
  exact hqueued e.settings e.queued

private theorem exists_queued_of_ran_flush {e : Engine} {r : Ran} (h : r ∈ e.ran .flush) :
    ∃ ticket, r.ticket = some ticket ∧ (r.chunk, ticket) ∈ e.queued := by
  have hmem := List.mem_map_of_mem (f := fun r : Ran => (r.chunk, r.ticket)) h
  rw [map_ran_flush] at hmem
  obtain ⟨⟨chunk, ticket⟩, hq, heq⟩ := List.mem_map.1 hmem
  obtain ⟨hchunk, hticket⟩ := Prod.mk.inj heq
  exact ⟨ticket, hticket.symm, hchunk ▸ hq⟩

private theorem exists_ran_flush_of_queued {e : Engine} {chunk : String} {ticket : Nat} (h : (chunk, ticket) ∈ e.queued)
    :
    ∃ r ∈ e.ran .flush, r.ticket = some ticket := by
  have hmem := List.mem_map_of_mem (f := fun q : String × Nat => (q.1, some q.2)) h
  rw [← map_ran_flush] at hmem
  obtain ⟨r, hr, heq⟩ := List.mem_map.1 hmem
  exact ⟨r, hr, (Prod.mk.inj heq).2⟩

/-- The ticket was given to this chunk, and waits for no other. -/
structure Reserved (e : Engine) (ticket : Nat) (chunk : String) : Prop where
  given : ticket < e.nextTicket
  only : ∀ q ∈ e.queued, q.2 = ticket → q.1 = chunk

private theorem act_send (e : Engine) (chunk : String) :
    (e.act (.send chunk)).nextTicket = e.nextTicket ∧ (e.act (.send chunk)).queued = e.queued ∧
      (e.act (.send chunk)).deferred = e.deferred := by
  simp only [act, send]
  split <;> exact ⟨rfl, rfl, rfl⟩

/-- A chunk that is held back gets the next ticket; other than that only a flush changes what is held back. -/
private theorem queued_act (e : Engine) (a : Act) :
    e.nextTicket ≤ (e.act a).nextTicket ∧
      ∀ q ∈ (e.act a).queued, q ∈ e.queued ∨ q.2 = e.nextTicket ∧ q.2 < (e.act a).nextTicket := by
  cases a with
  | execute chunk =>
    cases hdeferred : e.deferred with
    | true =>
      simp only [act, execute, hdeferred, if_true]
      refine ⟨Nat.le_succ _, fun q hq => ?_⟩
      rcases List.mem_append.1 hq with hq | hq
      · exact .inl hq
      · rw [List.mem_singleton.1 hq]
        exact .inr ⟨rfl, Nat.lt_succ_self _⟩
    | false =>
      simp only [act, execute, hdeferred, Bool.false_eq_true, if_false]
      exact ⟨Nat.le_succ _, fun q hq => .inl hq⟩
  | send chunk =>
    obtain ⟨hticket, hqueued, -⟩ := e.act_send chunk
    rw [hticket, hqueued]
    exact ⟨Nat.le_refl _, fun q hq => .inl hq⟩
  | flush => exact ⟨Nat.le_refl _, fun _ hq => (List.not_mem_nil hq).elim⟩
  | defer => exact ⟨Nat.le_refl _, fun q hq => .inl hq⟩

private theorem Reserved.act {e : Engine} {ticket : Nat} {chunk : String} (h : e.Reserved ticket chunk) (a : Act) :
    (e.act a).Reserved ticket chunk := by
  obtain ⟨hle, hqueued⟩ := e.queued_act a
  refine ⟨h.given.trans_le hle, fun q hq hticket => ?_⟩
  rcases hqueued q hq with hold | ⟨hnew, -⟩
  · exact h.only q hold hticket
  · have := h.given
    omega

/-- Only a flush answers a chunk that was given its ticket before. -/
private theorem Reserved.ran {e : Engine} {ticket : Nat} {chunk : String} (h : e.Reserved ticket chunk) {a : Act}
    {r : Ran} (hr : r ∈ e.ran a) (hticket : r.ticket = some ticket) : a = .flush ∧ r.chunk = chunk := by
  cases a with
  | execute other =>
    exfalso
    simp only [Engine.ran] at hr
    split at hr
    · obtain rfl := List.mem_singleton.1 hr
      exact h.given.ne' (Option.some.inj hticket)
    · cases hr
  | send other =>
    obtain rfl := List.mem_singleton.1 hr
    cases hticket
  | flush =>
    obtain ⟨ticket', hticket', hqueued⟩ := exists_queued_of_ran_flush hr
    rw [hticket] at hticket'
    cases hticket'
    exact ⟨rfl, h.only _ hqueued rfl⟩
  | defer => cases hr

private theorem Reserved.trace {e : Engine} {ticket : Nat} {chunk : String} (h : e.Reserved ticket chunk)
    {acts : List Act}
    {r : Ran} (hr : r ∈ e.trace acts) (hticket : r.ticket = some ticket) : .flush ∈ acts ∧ r.chunk = chunk := by
  induction acts generalizing e with
  | nil => cases hr
  | cons a acts ih =>
    rcases List.mem_append.1 hr with hr | hr
    · obtain ⟨rfl, hchunk⟩ := h.ran hr hticket
      exact ⟨List.mem_cons_self .., hchunk⟩
    · obtain ⟨hflush, hchunk⟩ := ih (h.act a) hr
      exact ⟨List.mem_cons_of_mem _ hflush, hchunk⟩

private theorem mem_queued_act {e : Engine} {q : String × Nat} (h : q ∈ e.queued) {a : Act} (ha : a ≠ .flush) :
    q ∈ (e.act a).queued := by
  cases a with
  | execute chunk =>
    cases hdeferred : e.deferred with
    | true =>
      simp only [act, execute, hdeferred, if_true]
      exact List.mem_append_left _ h
    | false =>
      simp only [act, execute, hdeferred, Bool.false_eq_true, if_false]
      exact h
  | send chunk =>
    rw [(e.act_send chunk).2.1]
    exact h
  | flush => exact absurd rfl ha
  | defer => exact h

private theorem exists_ran_of_flush {e : Engine} {chunk : String} {ticket : Nat} (h : (chunk, ticket) ∈ e.queued)
    {acts : List Act} (hflush : .flush ∈ acts) : ∃ r ∈ e.trace acts, r.ticket = some ticket := by
  induction acts generalizing e with
  | nil => cases hflush
  | cons a acts ih =>
    by_cases ha : a = .flush
    · subst ha
      obtain ⟨r, hr, hticket⟩ := exists_ran_flush_of_queued h
      exact ⟨r, List.mem_append_left _ hr, hticket⟩
    · have hflush' : .flush ∈ acts := (List.mem_cons.1 hflush).resolve_left (Ne.symm ha)
      obtain ⟨r, hr, hticket⟩ := ih (mem_queued_act h ha) hflush'
      exact ⟨r, List.mem_append_right _ hr, hticket⟩

/-- The tickets of all chunks held back were given. -/
def Given (e : Engine) : Prop := ∀ q ∈ e.queued, q.2 < e.nextTicket

private theorem given_play {e : Engine} (h : e.Given) (acts : List Act) : (e.play acts).Given := by
  induction acts generalizing e with
  | nil => exact h
  | cons a acts ih =>
    apply ih
    intro q hq
    obtain ⟨hle, hqueued⟩ := e.queued_act a
    rcases hqueued q hq with hold | ⟨-, hlt⟩
    · exact (h q hold).trans_le hle
    · exact hlt

private theorem given_new (t : SettingTable) (deferred : Bool) : (new t deferred).Given :=
  fun _ hq => (List.not_mem_nil hq).elim

/-! ### The answer to a read -/

/-- The answer to a read and the chunks that ran between the read and its answer, if the chunks that run after the read
include it. -/
def answered? (later : List Ran) : Reading Answer → Option (List Ran × Answer)
  | .now a => some ([], a)
  | .later ticket =>
    (later.find? (·.ticket = some ticket)).map fun r =>
      (later.takeWhile (·.ticket ≠ some ticket), answerOfReply r.reply)

private theorem answered?_later_isSome {later : List Ran} {ticket : Nat} :
    (answered? later (.later ticket)).isSome = true ↔ ∃ r ∈ later, r.ticket = some ticket := by
  simp [answered?]

private theorem exists_of_answered?_later {later rs : List Ran} {ticket : Nat} {a : Answer}
    (h : answered? later (.later ticket) = some (rs, a)) :
    ∃ r rest, later = rs ++ r :: rest ∧ r.ticket = some ticket ∧ a = answerOfReply r.reply := by
  obtain ⟨r, hfind, heq⟩ := Option.map_eq_some_iff.1 h
  obtain ⟨hr, front, rest, rfl, hfront⟩ := List.find?_eq_some_iff_append.1 hfind
  obtain ⟨rfl, rfl⟩ := Prod.mk.inj heq
  have hticket : r.ticket = some ticket := of_decide_eq_true hr
  refine ⟨r, rest, ?_, hticket, rfl⟩
  have hall : ∀ r' ∈ front, decide (r'.ticket ≠ some ticket) = true := by simpa using hfront
  rw [List.takeWhile_append_of_pos hall, List.takeWhile_cons_of_neg (by simp [hticket]), List.append_nil]

private theorem answerOfReply_run_readChunk (t : SettingTable) (k : Field) :
    answerOfReply (run t (readChunk k)).2 = Answer.told (t.get? k.name) := by
  rw [run_readChunk]
  exact answerOfReply_replyFor t k

private theorem reserved_read {e : Engine} (h : e.Given) (hdeferred : e.deferred = true) (k : Field) :
    (RemoteSide.read e k).value.1.Reserved e.nextTicket (readChunk k) := by
  rw [read_of_deferred hdeferred]
  refine ⟨Nat.lt_succ_self _, fun q hq hticket => ?_⟩
  rcases List.mem_append.1 hq with hq | hq
  · exact absurd hticket (h q hq).ne
  · rw [List.mem_singleton.1 hq]
    rfl

/-- A read is answered at once unless replies are held back, and then by the first flush. -/
private theorem answered?_read_isSome {e : Engine} (h : e.Given) (k : Field) (later : List Act) :
    (answered? ((RemoteSide.read e k).value.1.trace later) (RemoteSide.read e k).value.2).isSome = true ↔
      e.deferred = false ∨ .flush ∈ later := by
  cases hdeferred : e.deferred with
  | false =>
    rw [read_of_not_deferred hdeferred]
    simp [answered?]
  | true =>
    have hreserved := reserved_read h hdeferred k
    rw [read_of_deferred hdeferred] at hreserved ⊢
    rw [answered?_later_isSome]
    constructor
    · rintro ⟨r, hr, hticket⟩
      exact .inr (hreserved.trace hr hticket).1
    · rintro (hfalse | hflush)
      · cases hfalse
      · exact exists_ran_of_flush (List.mem_append_right _ (List.mem_singleton.2 rfl)) hflush

/-- The answer to a read tells of the table that the chunks before the answer left. -/
private theorem exists_of_answered?_read {e : Engine} (h : e.Given) {k : Field} {later : List Act} {rs : List Ran}
    {a : Answer}
    (ha : answered? ((RemoteSide.read e k).value.1.trace later) (RemoteSide.read e k).value.2 = some (rs, a)) :
    ∃ t, Runs e.settings rs t ∧ a = Answer.told (t.get? k.name) := by
  cases hdeferred : e.deferred with
  | false =>
    rw [read_of_not_deferred hdeferred] at ha
    obtain ⟨rfl, rfl⟩ := Prod.mk.inj (Option.some.inj ha)
    exact ⟨e.settings, .nil _, answerOfReply_replyFor e.settings k⟩
  | true =>
    have hreserved := reserved_read h hdeferred k
    have hruns := runs_trace (RemoteSide.read e k).value.1 later
    rw [read_of_deferred hdeferred] at hreserved hruns ha
    obtain ⟨r, rest, htrace, hticket, rfl⟩ := exists_of_answered?_later ha
    rw [htrace] at hruns
    have hmem : r ∈ rs ++ r :: rest := List.mem_append_right _ (List.mem_cons_self ..)
    rw [← htrace] at hmem
    obtain ⟨-, hchunk⟩ := hreserved.trace hmem hticket
    obtain ⟨t, hrs, hreply⟩ := hruns.reply_eq
    exact ⟨t, hrs, by rw [hreply, hchunk, answerOfReply_run_readChunk]⟩

end CameraPanel.Engine

namespace CameraPanel

private theorem Reply.told_finite {v : Double} (h : v.isFinite = true) :
    ∃ w : Double, w.isFinite = true ∧ Answer.told (some v) = .ok (some w) ∧ (Reply.Short v → w = v) := by
  obtain ⟨w, hw, hdecode⟩ := Reply.exists_decode_encode h
  refine ⟨w, hw, hdecode, fun hshort => ?_⟩
  have hback := (Reply.decode_encode_iff h).2 (Reply.faithful_of_short h hshort)
  rw [hdecode] at hback
  exact Option.some.inj (Except.ok.inj hback)

private theorem Reply.told_eq_none_iff {v : Double} : Answer.told (some v) = .ok none ↔ v.isFinite = false := by
  constructor
  · intro h
    by_contra hfinite
    obtain ⟨w, -, htold, -⟩ := told_finite (by simpa using hfinite)
    rw [h] at htold
    cases htold
  · exact Reply.decode_encode_of_not_finite

/-- A read that starts after a write is answered, at once or by the next flush.  If no other chunk that sets the field
ran between the write and the answer, the read hears of no value if the one written is no finite number, and of a
finite number otherwise; this is the one written if its text has few digits. -/
theorem Engine.read_after_write (t : SettingTable) (deferred : Bool) (earlier between later : List Act) (k : Field)
    (v : Double) :
    let written := (RemoteSide.write ((new t deferred).play earlier) k v).value
    let started := (RemoteSide.read (written.play between) k).value
    ((answered? (started.1.trace later) started.2).isSome = true ↔
      (written.play between).deferred = false ∨ .flush ∈ later) ∧
    ∀ rs a, answered? (started.1.trace later) started.2 = some (rs, a) →
      (∀ r ∈ written.trace between ++ rs, setBy? k.name r.chunk = none) →
      (a = .ok none ↔ v.isFinite = false) ∧
      (v.isFinite = true → ∃ w : Double, w.isFinite = true ∧ a = .ok (some w) ∧ (Reply.Short v → w = v)) := by
  intro written started
  have hwritten : written = _ := write_value ((new t deferred).play earlier) k v
  have hgiven : written.Given := by
    rw [hwritten]
    exact given_play (given_new t deferred) earlier
  have hvalue : written.settings.get? k.name = some v := by
    rw [hwritten]
    exact SettingTable.get?_insert_self ..
  refine ⟨answered?_read_isSome (given_play hgiven between) k later, fun rs a ha hrs => ?_⟩
  obtain ⟨t', hruns, rfl⟩ := exists_of_answered?_read (given_play hgiven between) ha
  have hkept := ((written.runs_trace between).append hruns).get?_eq hrs
  rw [hkept, hvalue]
  exact ⟨Reply.told_eq_none_iff, Reply.told_finite⟩

end CameraPanel
